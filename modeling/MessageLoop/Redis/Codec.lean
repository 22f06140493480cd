import MessageLoop.Redis.Stream

/-!
Stream IDs as texts and their offsets (`pkg/redisbroker/history.go`), and the range that
`catchUpMissed` reads (`pkg/redisbroker/pubsub.go`): it starts one behind the last offset.
-/

namespace MessageLoop.Redis

/-- `ParseUint(s, 10, 64)`. -/
def parseUint (digits : List Char) : Option UInt64 :=
  let n := Nat.ofDigitChars 10 digits 0
  if digits ≠ [] ∧ digits.all Char.isDigit ∧ n < 2 ^ 64 then some (.ofNat n) else none

def StreamID.text (id : StreamID) : String :=
  toString id.ms ++ "-" ++ toString id.seq

def parseStreamID (text : String) : Option StreamID :=
  match text.toList.dropWhile (· ≠ '-') with
  | [] => none
  | _ :: seq => do
    let ms ← parseUint (text.toList.takeWhile (· ≠ '-'))
    let seq ← parseUint seq
    some ⟨ms, seq⟩

/-- `parseStreamOffset` of the text that Redis sends; zero where it is not an ID. -/
def offsetOfText (text : String) : UInt64 :=
  ((parseStreamID text).map parseStreamOffset).getD 0

def startText (sinceOffset : UInt64) : String :=
  if sinceOffset = 0 then "0" else (streamStartID sinceOffset).text

/-- The ID that Redis reads from the start of a range; it completes `0` to `0-0`. -/
def rangeStart (text : String) : Option StreamID :=
  if text = "0" then some ⟨0, 0⟩ else parseStreamID text

theorem parseUint_toDigits (n : UInt64) : parseUint (Nat.toDigits 10 n.toNat) = some n := by
  have hdigits : (Nat.toDigits 10 n.toNat).all Char.isDigit := by
    rw [List.all_eq_true]
    intro c hc
    exact Nat.isDigit_of_mem_toDigits (by decide) (by decide) hc
  simp [parseUint, hdigits, Nat.ofDigitChars_ten_toDigits, n.toNat_lt]

theorem toList_text (id : StreamID) :
    id.text.toList = Nat.toDigits 10 id.ms.toNat ++ '-' :: Nat.toDigits 10 id.seq.toNat := by
  have h : ∀ n : UInt64, (toString n).toList = Nat.toDigits 10 n.toNat :=
    fun n => Nat.toList_repr
  simp [StreamID.text, h]

theorem parseStreamID_text (id : StreamID) : parseStreamID id.text = some id := by
  have hdigits : ∀ c ∈ Nat.toDigits 10 id.ms.toNat, decide (c ≠ '-') = true := by
    intro c hc
    have hdigit := Nat.isDigit_of_mem_toDigits (by decide) (by decide) hc
    rw [decide_eq_true_eq]
    rintro rfl
    exact absurd hdigit (by decide)
  unfold parseStreamID
  rw [toList_text, List.dropWhile_append_of_pos hdigits, List.takeWhile_append_of_pos hdigits]
  simp [parseUint_toDigits]

@[simp] theorem offsetOfText_text (id : StreamID) : offsetOfText id.text = parseStreamOffset id := by
  simp [offsetOfText, parseStreamID_text]

@[simp] theorem rangeStart_startText (offset : UInt64) :
    rangeStart (startText offset) = some (streamStartID offset) := by
  unfold startText
  split
  case isTrue hzero => simp [rangeStart, streamStartID, hzero]
  case isFalse =>
    have hne : (streamStartID offset).text ≠ "0" := by
      intro h
      have hchars := toList_text (streamStartID offset)
      rw [h] at hchars
      have hmem : '-' ∈ "0".toList := by
        rw [hchars]
        simp
      exact absurd hmem (by decide)
    rw [rangeStart, if_neg hne, parseStreamID_text]

/-- The last ID with an offset: behind its offset, which is the largest number of 64 bits, comes
zero. -/
def maxID : StreamID :=
  ⟨.ofNat (2 ^ 44 - 1), .ofNat (2 ^ 20 - 1)⟩

variable {id : StreamID}

theorem StreamID.eq_of_toNat {a b : StreamID} (hms : a.ms.toNat = b.ms.toNat)
    (hseq : a.seq.toNat = b.seq.toNat) : a = b := by
  obtain ⟨ams, aseq⟩ := a
  obtain ⟨bms, bseq⟩ := b
  rw [StreamID.mk.injEq]
  exact ⟨UInt64.toNat_inj.mp hms, UInt64.toNat_inj.mp hseq⟩

theorem streamStartID_parseStreamOffset (hid : id.Representable) :
    streamStartID (parseStreamOffset id) = id := by
  obtain ⟨hms, hseq⟩ := toNat_streamStartID (parseStreamOffset id)
  have hsmall := hid.2
  rw [toNat_parseStreamOffset hid] at hms hseq
  exact StreamID.eq_of_toNat (by omega) (by omega)

theorem offset_lt_max_iff (hid : id.Representable) :
    (parseStreamOffset id).toNat < 2 ^ 64 - 1 ↔ id ≠ maxID := by
  have hms := hid.1
  have hseq := hid.2
  rw [toNat_parseStreamOffset hid]
  constructor
  · rintro hlt rfl
    exact absurd hlt (by decide)
  · intro hne
    by_contra hmax
    apply hne
    exact StreamID.eq_of_toNat (show id.ms.toNat = 2 ^ 44 - 1 by omega)
      (show id.seq.toNat = 2 ^ 20 - 1 by omega)

theorem offset_codec_iff (hid : id.Representable) (hms : 0 < id.ms) :
    ((∀ other : StreamID, other.Representable → 0 < other.ms →
        (offsetOfText id.text < offsetOfText other.text ↔ id.rank < other.rank)) ∧
      offsetOfText id.text ≠ 0 ∧
      rangeStart (startText (offsetOfText id.text)) = some id ∧
      ∃ start, rangeStart (startText (offsetOfText id.text + 1)) = some start ∧
        ∀ other : StreamID, other.Representable → 0 < other.ms →
          (start.rank ≤ other.rank ↔ id.rank < other.rank)) ↔ id ≠ maxID := by
  simp only [offsetOfText_text, rangeStart_startText, Option.some.injEq, exists_eq_left']
  constructor
  · rintro ⟨-, -, -, hrange⟩ rfl
    -- The range behind the last ID starts at the beginning of the stream.
    exact absurd ((hrange maxID hid hms).mp (by decide)) (Nat.lt_irrefl _)
  · intro hne
    have hroom := (offset_lt_max_iff hid).mpr hne
    have hsucc := toNat_succ hroom
    refine ⟨fun other hother _ => offset_lt_iff hid hother, ?_,
      streamStartID_parseStreamOffset hid, ?_⟩
    · intro hzero
      have hoffset := toNat_parseStreamOffset hid
      rw [hzero] at hoffset
      rw [UInt64.lt_iff_toNat_lt] at hms
      simp at hoffset hms
      omega
    · intro other hother _
      rw [startID_le_iff hother, ← offset_lt_iff hid hother, UInt64.le_iff_toNat_le,
        UInt64.lt_iff_toNat_lt, hsucc]
      exact Nat.succ_le_iff

theorem offset_codec_carry :
    let id : StreamID := ⟨5, .ofNat (2 ^ 20 - 1)⟩
    ∃ start, rangeStart (startText (offsetOfText id.text + 1)) = some start ∧
      ∀ other : StreamID, other.Representable → 0 < other.ms →
        (start.rank ≤ other.rank ↔ id.rank < other.rank) :=
  ((offset_codec_iff (by decide) (by decide)).mpr (by decide)).2.2.2

/-- What follows the last ID is read from the beginning of the stream. -/
theorem offset_codec_wraps :
    maxID.Representable ∧ 0 < maxID.ms ∧
      ∃ start, rangeStart (startText (offsetOfText maxID.text + 1)) = some start ∧
        ¬ ∀ other : StreamID, other.Representable → 0 < other.ms →
          (start.rank ≤ other.rank ↔ maxID.rank < other.rank) := by
  refine ⟨by decide, by decide, streamStartID (parseStreamOffset maxID + 1), by simp, ?_⟩
  intro hrange
  exact absurd ((hrange maxID (by decide) (by decide)).mp (by decide)) (Nat.lt_irrefl _)

end MessageLoop.Redis
