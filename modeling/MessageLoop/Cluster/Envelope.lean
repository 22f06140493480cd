import MessageLoop.Lib.PrefixCode
import Mathlib

/-!
The signed envelopes of the cluster command bus (`internal/cluster/hmac/hmac.go`).

The keyed MAC and the payload's hash are parameters. The canonical bytes of a command leave out
`IssuedBy` and `TargetNodeID`, those of a result its `ErrorMessage`; everything else can be read off
them. Times are in Unix seconds, as the canonical bytes have them.
-/

namespace MessageLoop.Envelope

open PrefixCode List

abbrev Bytes := List UInt8

def bytes (text : String) : Bytes :=
  text.toByteArray.data.toList

/-- A string map, its entries in the order of the keys. -/
structure Metadata where
  entries : List (String × String)
  sorted : (entries.map Prod.fst).Pairwise (· < ·)
  deriving DecidableEq

namespace Metadata

def empty : Metadata := ⟨[], List.Pairwise.nil⟩

def get (m : Metadata) (key : String) : String :=
  (m.entries.lookup key).getD ""

theorem sorted_set {entries : List (String × String)} (h : (entries.map Prod.fst).Pairwise (· < ·))
    (key value : String) :
    ((entries.filter (·.1 < key) ++ (key, value) :: entries.filter (key < ·.1)).map
      Prod.fst).Pairwise (· < ·) := by
  rw [pairwise_map] at h ⊢
  rw [pairwise_append, pairwise_cons]
  refine ⟨h.filter _, ⟨?_, h.filter _⟩, ?_⟩
  · intro e he
    simpa using (mem_filter.mp he).2
  · intro d hd e he
    have hlt : d.1 < key := by simpa using (mem_filter.mp hd).2
    rcases mem_cons.mp he with rfl | he
    · exact hlt
    · exact lt_trans hlt (by simpa using (mem_filter.mp he).2)

def set (m : Metadata) (key value : String) : Metadata :=
  ⟨m.entries.filter (·.1 < key) ++ (key, value) :: m.entries.filter (key < ·.1),
    sorted_set m.sorted key value⟩

end Metadata

/-- The type is a string in the source, and any text can arrive. -/
structure ClusterCommand where
  commandID : String
  type : String
  targetNodeID : String
  targetIncarnationID : String
  sessionID : String
  channel : String
  leaseVersion : Nat
  issuedAt : Int
  issuedBy : String
  payload : Bytes
  metadata : Metadata
  signature : Bytes
  deriving DecidableEq

structure ClusterCommandResult where
  commandID : String
  sessionID : String
  nodeID : String
  incarnationID : String
  status : String
  errorCode : String
  errorMessage : String
  metadata : Metadata
  issuedAt : Int
  signature : Bytes
  deriving DecidableEq

/-- The seconds of Go's zero time. -/
def zeroTime : Int := -62135596800

section Encoding

def hexDigit (n : Nat) : UInt8 :=
  if n < 10 then .ofNat (48 + n) else .ofNat (87 + n)

def encodeToString (bs : Bytes) : Bytes :=
  bs.flatMap fun b => [hexDigit (b.toNat / 16), hexDigit (b.toNat % 16)]

def fromHexChar (c : UInt8) : Option Nat :=
  if 48 ≤ c.toNat ∧ c.toNat ≤ 57 then some (c.toNat - 48)
  else if 97 ≤ c.toNat ∧ c.toNat ≤ 102 then some (c.toNat - 87)
  else if 65 ≤ c.toNat ∧ c.toNat ≤ 70 then some (c.toNat - 55)
  else none

/-- Lower and upper case digits; an odd number of them is an error. -/
def decodeString : Bytes → Option Bytes
  | [] => some []
  | [_] => none
  | a :: b :: rest =>
    (fromHexChar a).bind fun high => (fromHexChar b).bind fun low =>
      (decodeString rest).map fun bs => .ofNat (16 * high + low) :: bs

def writeBytes (field : Bytes) : Bytes :=
  bytes (toString field.length) ++ bytes ":" ++ field ++ bytes "\n"

def writeField (field : String) : Bytes :=
  writeBytes (bytes field)

def writeMetadata (metadata : Metadata) : Bytes :=
  bytes (toString metadata.entries.length) ++ bytes "\n" ++
    metadata.entries.flatMap fun e => writeField e.1 ++ writeField e.2

variable (sha256 : Bytes → Bytes)

def canonicalCommand (cmd : ClusterCommand) : Bytes :=
  bytes "v2\n" ++ (writeField cmd.type ++ (writeField cmd.sessionID ++
    (writeField cmd.targetIncarnationID ++ (writeField (toString cmd.leaseVersion) ++
    (writeBytes (encodeToString (sha256 cmd.payload)) ++ (writeField cmd.commandID ++
    (writeField (toString cmd.issuedAt) ++ (writeField cmd.channel ++
    writeMetadata cmd.metadata))))))))

def canonicalResult (res : ClusterCommandResult) : Bytes :=
  bytes "v2-result\n" ++ (writeField res.commandID ++ (writeField res.status ++
    (writeField res.errorCode ++ (writeField res.sessionID ++ (writeField res.nodeID ++
    (writeField res.incarnationID ++ (writeField (toString res.issuedAt) ++
    writeMetadata res.metadata)))))))

end Encoding

section Signing
variable (mac : Bytes → Bytes) (sha256 : Bytes → Bytes)

def compute (canonical : Bytes) : Bytes :=
  encodeToString (mac canonical)

def verify (canonical signature : Bytes) : Bool :=
  decodeString signature = some (mac canonical)

def signCommand (cmd : ClusterCommand) : ClusterCommand :=
  { cmd with signature := compute mac (canonicalCommand sha256 cmd) }

def signResult (res : ClusterCommandResult) : ClusterCommandResult :=
  { res with signature := compute mac (canonicalResult res) }

inductive RejectReason where
  | missing
  | bad
  | skew
  | id
  deriving DecidableEq, Repr

structure VerifyError where
  reason : RejectReason
  detail : String
  deriving DecidableEq, Repr

/-- In seconds. -/
def maxClockSkew : Nat := 30

def checkSkew (issuedAt now : Int) : Except VerifyError Unit :=
  if issuedAt = zeroTime then .error ⟨.skew, "issued_at is zero"⟩
  else if (now - issuedAt).natAbs > maxClockSkew then
    .error ⟨.skew, "issued_at is outside the ±30s clock-skew window"⟩
  else .ok ()

def verifyCommand (cmd : ClusterCommand) (now : Int) : Except VerifyError Unit :=
  if cmd.signature = [] then .error ⟨.missing, "command carries no signature"⟩
  else if cmd.commandID = "" then .error ⟨.id, "command carries no command_id"⟩
  else (checkSkew cmd.issuedAt now).bind fun _ =>
    if verify mac (canonicalCommand sha256 cmd) cmd.signature then .ok ()
    else .error ⟨.bad, "command MAC mismatch"⟩

def verifyResult (res : ClusterCommandResult) (now : Int) : Except VerifyError Unit :=
  if res.signature = [] then .error ⟨.missing, "result carries no signature"⟩
  else (checkSkew res.issuedAt now).bind fun _ =>
    if verify mac (canonicalResult res) res.signature then .ok ()
    else .error ⟨.bad, "result MAC mismatch"⟩

end Signing

section Injectivity

theorem bytes_injective : Function.Injective bytes := by
  intro a b hab
  apply String.toByteArray_inj.mp
  apply ByteArray.ext
  exact Array.toList_inj.mp hab

theorem fromHexChar_hexDigit {n : Nat} (hn : n < 16) : fromHexChar (hexDigit n) = some n := by
  have hall : ∀ n : Fin 16, fromHexChar (hexDigit n) = some n.val := by decide
  exact hall ⟨n, hn⟩

theorem decodeString_encodeToString (bs : Bytes) : decodeString (encodeToString bs) = some bs := by
  induction bs with
  | nil => rfl
  | cons b bs ih =>
    have hb : b.toNat < 256 := b.toNat_lt
    have hhigh : fromHexChar (hexDigit (b.toNat / 16)) = some (b.toNat / 16) :=
      fromHexChar_hexDigit (by omega)
    have hlow : fromHexChar (hexDigit (b.toNat % 16)) = some (b.toNat % 16) :=
      fromHexChar_hexDigit (by omega)
    have hsum : 16 * (b.toNat / 16) + b.toNat % 16 = b.toNat := by omega
    change decodeString (_ :: _ :: encodeToString bs) = _
    simp only [decodeString, hhigh, hlow, ih, hsum, Option.bind_some, Option.map_some,
      UInt8.ofNat_toNat]

theorem encodeToString_injective : Function.Injective encodeToString := by
  intro a b hab
  have hdecode := congrArg decodeString hab
  rw [decodeString_encodeToString, decodeString_encodeToString] at hdecode
  exact Option.some.inj hdecode

theorem digit_of_mem_bytes_toString {n : Nat} {b : UInt8} (hb : b ∈ bytes (toString n)) :
    48 ≤ b.toNat ∧ b.toNat ≤ 57 := by
  have hchars : b ∈ (Nat.toDigits 10 n).flatMap String.utf8EncodeChar := by
    rw [bytes, Nat.toString_eq_ofList_toDigits, String.toByteArray_ofList] at hb
    simpa [utf8Encode] using hb
  obtain ⟨c, hc, hbc⟩ := mem_flatMap.mp hchars
  have hdigit : 48 ≤ c.val.toNat ∧ c.val.toNat ≤ 57 := by
    have h := Nat.isDigit_of_mem_toDigits (by decide) (by decide) hc
    simpa [Char.isDigit, UInt32.le_iff_toNat_le] using h
  have hsize : c.utf8Size = 1 := by
    rw [Char.utf8Size_eq_one_iff, UInt32.le_iff_toNat_le]
    exact Nat.le_trans hdigit.2 (by decide)
  rw [String.utf8EncodeChar_eq_singleton hsize, mem_singleton] at hbc
  subst hbc
  rw [UInt32.toNat_toUInt8, Nat.mod_eq_of_lt (by omega)]
  exact hdigit

theorem toString_nat_injective : Function.Injective (toString : Nat → String) :=
  fun _ _ h => Nat.repr_injective h

theorem toString_int_injective : Function.Injective (toString : Int → String) :=
  fun _ _ h => Int.repr_injective h

theorem prefixFree_number (stop : UInt8) (hstop : stop.toNat < 48 ∨ 57 < stop.toNat) :
    PrefixFree fun n : Nat => bytes (toString n) ++ [stop] := by
  apply prefixFree_terminated
  · exact fun _ _ h => toString_nat_injective (bytes_injective h)
  · intro n hmem
    have hdigit := digit_of_mem_bytes_toString hmem
    omega

theorem prefixFree_writeBytes : PrefixFree writeBytes :=
  (prefixFree_number 58 (by decide)).measured.append_const _

theorem metadata_ext {m m' : Metadata} (h : m.entries = m'.entries) : m = m' := by
  cases m
  cases m'
  cases h
  rfl

/-- The signed fields of a command as the source holds them: a Go string is any sequence of bytes.
The map is given by its entries in the order of the keys. -/
@[ext]
structure RawCommand where
  type : Bytes
  sessionID : Bytes
  targetIncarnationID : Bytes
  leaseVersion : Nat
  payload : Bytes
  commandID : Bytes
  issuedAt : Int
  channel : Bytes
  metadata : List (Bytes × Bytes)

open RawCommand

@[ext]
structure RawResult where
  commandID : Bytes
  status : Bytes
  errorCode : Bytes
  sessionID : Bytes
  nodeID : Bytes
  incarnationID : Bytes
  issuedAt : Int
  metadata : List (Bytes × Bytes)

def writeEntries (entries : List (Bytes × Bytes)) : Bytes :=
  bytes (toString entries.length) ++ bytes "\n" ++
    entries.flatMap fun e => writeBytes e.1 ++ writeBytes e.2

def RawCommand.fields (sha256 : Bytes → Bytes) (cmd : RawCommand) : List Bytes :=
  [cmd.type, cmd.sessionID, cmd.targetIncarnationID, bytes (toString cmd.leaseVersion),
    encodeToString (sha256 cmd.payload), cmd.commandID, bytes (toString cmd.issuedAt), cmd.channel]

def RawResult.fields (res : RawResult) : List Bytes :=
  [res.commandID, res.status, res.errorCode, res.sessionID, res.nodeID, res.incarnationID,
    bytes (toString res.issuedAt)]

def RawCommand.canonical (sha256 : Bytes → Bytes) (cmd : RawCommand) : Bytes :=
  bytes "v2\n" ++ ((cmd.fields sha256).flatMap writeBytes ++ writeEntries cmd.metadata)

def RawResult.canonical (res : RawResult) : Bytes :=
  bytes "v2-result\n" ++ (res.fields.flatMap writeBytes ++ writeEntries res.metadata)

theorem prefixFree_writeEntries : PrefixFree writeEntries :=
  (prefixFree_number 10 (by decide)).counted (prefixFree_writeBytes.pair prefixFree_writeBytes)

theorem RawCommand.canonical_injective {sha256 : Bytes → Bytes}
    (hsha : Function.Injective sha256) : Function.Injective (canonical sha256) := by
  intro c d h
  obtain ⟨hfields, hentries⟩ := prefixFree_writeBytes.words (by rfl) (append_cancel_left h)
  have hmetadata := prefixFree_writeEntries.injective hentries
  simp only [fields, cons.injEq, bytes_injective.eq_iff, toString_nat_injective.eq_iff,
    toString_int_injective.eq_iff, encodeToString_injective.eq_iff, hsha.eq_iff] at hfields
  simp only [RawCommand.ext_iff, hfields, hmetadata, and_self]

theorem RawResult.canonical_injective : Function.Injective canonical := by
  intro r q h
  obtain ⟨hfields, hentries⟩ := prefixFree_writeBytes.words (by rfl) (append_cancel_left h)
  have hmetadata := prefixFree_writeEntries.injective hentries
  simp only [fields, cons.injEq, bytes_injective.eq_iff, toString_int_injective.eq_iff] at hfields
  simp only [RawResult.ext_iff, hfields, hmetadata, and_self]

theorem RawCommand.canonical_ne (sha256 : Bytes → Bytes) (c : RawCommand) (r : RawResult) :
    c.canonical sha256 ≠ r.canonical := by
  intro h
  have hthird := congrArg (·[2]?) h
  have hcommand : bytes "v2\n" = [118, 50, 10] := by decide
  have hresult : bytes "v2-result\n" = [118, 50, 45, 114, 101, 115, 117, 108, 116, 10] := by decide
  simp [canonical, RawResult.canonical, hcommand, hresult] at hthird

theorem canonical_unique {sha256 : Bytes → Bytes} (hsha : Function.Injective sha256) :
    Function.Injective (canonical sha256) ∧ Function.Injective RawResult.canonical ∧
      ∀ (c : RawCommand) (r : RawResult), c.canonical sha256 ≠ r.canonical :=
  ⟨canonical_injective hsha, RawResult.canonical_injective, canonical_ne _⟩

theorem canonical_unique_plain : Function.Injective (canonical id) :=
  (canonical_unique Function.injective_id).1

def Metadata.raw (m : Metadata) : List (Bytes × Bytes) :=
  m.entries.map (Prod.map bytes bytes)

theorem Metadata.raw_injective : Function.Injective raw := fun _ _ h =>
  metadata_ext (map_injective_iff.mpr (bytes_injective.prodMap bytes_injective) h)

def ClusterCommand.raw (cmd : ClusterCommand) : RawCommand :=
  ⟨bytes cmd.type, bytes cmd.sessionID, bytes cmd.targetIncarnationID, cmd.leaseVersion,
    cmd.payload, bytes cmd.commandID, cmd.issuedAt, bytes cmd.channel, cmd.metadata.raw⟩

def ClusterCommandResult.raw (res : ClusterCommandResult) : RawResult :=
  ⟨bytes res.commandID, bytes res.status, bytes res.errorCode, bytes res.sessionID,
    bytes res.nodeID, bytes res.incarnationID, res.issuedAt, res.metadata.raw⟩

theorem writeEntries_raw (m : Metadata) : writeEntries m.raw = writeMetadata m := by
  simp only [writeEntries, Metadata.raw, writeMetadata, length_map, flatMap_map]
  rfl

theorem canonical_raw (sha256 : Bytes → Bytes) (cmd : ClusterCommand) :
    cmd.raw.canonical sha256 = canonicalCommand sha256 cmd := by
  simp [canonical, fields, canonicalCommand, ClusterCommand.raw,
    writeEntries_raw, writeField]

theorem canonicalResult_raw (res : ClusterCommandResult) :
    res.raw.canonical = canonicalResult res := by
  simp [RawResult.canonical, RawResult.fields, canonicalResult, ClusterCommandResult.raw,
    writeEntries_raw, writeField]

def ClusterCommand.signedFields (cmd : ClusterCommand) : ClusterCommand :=
  { cmd with targetNodeID := "", issuedBy := "", signature := [] }

def ClusterCommandResult.signedFields (res : ClusterCommandResult) : ClusterCommandResult :=
  { res with errorMessage := "", signature := [] }

theorem canonicalCommand_injective {sha256 : Bytes → Bytes} (hsha : Function.Injective sha256)
    {c d : ClusterCommand} (h : canonicalCommand sha256 c = canonicalCommand sha256 d) :
    c.signedFields = d.signedFields := by
  rw [← canonical_raw, ← canonical_raw] at h
  have hraw := canonical_injective hsha h
  simp only [ClusterCommand.raw, mk.injEq, bytes_injective.eq_iff,
    Metadata.raw_injective.eq_iff] at hraw
  simp only [ClusterCommand.signedFields, hraw]

theorem canonicalResult_injective {r q : ClusterCommandResult}
    (h : canonicalResult r = canonicalResult q) : r.signedFields = q.signedFields := by
  rw [← canonicalResult_raw, ← canonicalResult_raw] at h
  have hraw := RawResult.canonical_injective h
  simp only [ClusterCommandResult.raw, RawResult.mk.injEq, bytes_injective.eq_iff,
    Metadata.raw_injective.eq_iff] at hraw
  simp only [ClusterCommandResult.signedFields, hraw]

theorem canonicalCommand_ne_canonicalResult {sha256 : Bytes → Bytes} (c : ClusterCommand)
    (r : ClusterCommandResult) : canonicalCommand sha256 c ≠ canonicalResult r := by
  rw [← canonical_raw, ← canonicalResult_raw]
  exact canonical_ne sha256 c.raw r.raw

end Injectivity

end MessageLoop.Envelope
