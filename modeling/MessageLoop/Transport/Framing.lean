import MessageLoop.Lib.Delimited
import MessageLoop.Lib.Transition
import Mathlib.Algebra.Group.Nat.Defs

/-!
Length-prefixed frames on a byte stream: the writer the QUIC and KCP adapters share
(`pkg/transport/framing/framing.go`) over `WriteFrame` and `ReadFrame`
(`protocol/streamframe.go`), and the receivers, which read frames until the first error.

The stream decides the outcome of every write: how many bytes it takes and whether it fails.
Deadlines only show in these outcomes.
-/

namespace MessageLoop.Framing

open List

abbrev Byte := UInt8

abbrev Payload := List Byte

def frameHeaderSize : Nat := 4

/-- Big-endian; the length of a payload is truncated to 32 bits. -/
def putUint32 (n : Nat) : List Byte :=
  [(n / 2 ^ 24).toUInt8, (n / 2 ^ 16).toUInt8, (n / 2 ^ 8).toUInt8, n.toUInt8]

def uint32 (hdr : List Byte) : Nat :=
  hdr.foldl (fun n b => n * 256 + b.toNat) 0

section Write

/-- What one `Write` of the stream returns. It takes at most the bytes it is given. -/
structure Outcome where
  accepted : Nat
  failed : Bool
  deriving DecidableEq, Repr

inductive WriteError where
  | emptyFrame
  | shortWrite
  | stream
  | closed
  | marshal
  deriving DecidableEq, Repr

/-- `outcomes` are those of the writes still to come; when they are used up every write takes all
its bytes. -/
structure Written where
  accepted : List Byte
  outcomes : List Outcome
  error : Option WriteError
  deriving DecidableEq, Repr

def writeFull : List Outcome → List Byte → Written
  | outcomes, [] => ⟨[], outcomes, none⟩
  | [], p => ⟨p, [], none⟩
  | o :: outcomes, b :: p =>
    let taken := (b :: p).take o.accepted
    if o.failed then ⟨taken, outcomes, some .stream⟩
    else if taken = [] then ⟨[], outcomes, some .shortWrite⟩
    else
      let rest := writeFull outcomes ((b :: p).drop o.accepted)
      { rest with accepted := taken ++ rest.accepted }

def frame (payload : Payload) : List Byte :=
  putUint32 payload.length ++ payload

def writeFrame (outcomes : List Outcome) (payload : Payload) : Written :=
  if payload = [] then ⟨[], outcomes, some .emptyFrame⟩
  else
    let header := writeFull outcomes (putUint32 payload.length)
    match header.error with
    | some _ => header
    | none =>
      let body := writeFull header.outcomes payload
      { body with accepted := header.accepted ++ body.accepted }

end Write

section Read

inductive ReadError where
  | eof
  | unexpectedEOF
  | emptyFrame
  | frameTooLarge
  deriving DecidableEq, Repr

def readFull (n : Nat) (r : List Byte) : Except ReadError (List Byte × List Byte) :=
  if n ≤ r.length then .ok (r.take n, r.drop n)
  else if r = [] then .error .eof
  else .error .unexpectedEOF

def readFrame (maxSize : Int) (r : List Byte) : Except ReadError (Payload × List Byte) :=
  match readFull frameHeaderSize r with
  | .error e => .error e
  | .ok (hdr, r) =>
    let n := uint32 hdr
    if n = 0 then .error .emptyFrame
    else if 0 < maxSize ∧ maxSize < n then .error .frameTooLarge
    else readFull n r

def receive (maxSize : Int) (bytes : List Byte) : List Payload :=
  Delimited.readAll (fun r => (readFrame maxSize r).toOption) bytes

end Read

/-- `torn` records that the stream has taken a part of a frame and no more. -/
structure Writer where
  stream : List Byte
  closed : Bool
  torn : Bool
  deriving DecidableEq, Repr

open Writer

/-- The calls; each holds the write lock. `writeDisconnectFrame` is given the marshaled envelope,
unless marshaling fails. -/
inductive Call where
  | writeMany (msgs : List Payload) (outcomes : List Outcome)
  | markClosed
  | writeDisconnectFrame (envelope : Option Payload) (outcomes : List Outcome)
  deriving DecidableEq, Repr

namespace Writer

def newWriter : Writer := ⟨[], false, false⟩

def put (w : Writer) (payload : Payload) (accepted : List Byte) : Writer :=
  { w with
    stream := w.stream ++ accepted
    torn := w.torn || (accepted ≠ [] && accepted ≠ frame payload) }

def writeAll (w : Writer) : List Payload → List Outcome → Writer × Option WriteError
  | [], _ => (w, none)
  | msg :: msgs, outcomes =>
    let written := writeFrame outcomes msg
    let w := w.put msg written.accepted
    match written.error with
    | some e => (w, some e)
    | none => w.writeAll msgs written.outcomes

def writeMany (w : Writer) (msgs : List Payload) (outcomes : List Outcome) :
    Writer × Option WriteError :=
  if w.closed then (w, some .closed) else w.writeAll msgs outcomes

def markClosed (w : Writer) : Writer × Bool :=
  if w.closed then (w, false) else ({ w with closed := true }, true)

def writeDisconnectFrame (w : Writer) (envelope : Option Payload) (outcomes : List Outcome) :
    Writer × Option WriteError :=
  match envelope with
  | none => (w, some .marshal)
  | some payload =>
    let written := writeFrame outcomes payload
    (w.put payload written.accepted, written.error)

def call (w : Writer) : Call → Writer
  | .writeMany msgs outcomes => (w.writeMany msgs outcomes).1
  | .markClosed => w.markClosed.1
  | .writeDisconnectFrame envelope outcomes => (w.writeDisconnectFrame envelope outcomes).1

end Writer

def Call.payloads : Call → List Payload
  | .writeMany msgs _ => msgs
  | .markClosed => []
  | .writeDisconnectFrame envelope _ => envelope.toList

def step (w : Writer) (c : Call) : Option Writer :=
  some (w.call c)

abbrev run : Writer → List Call → Option Writer :=
  Transition.run step

/-- The stream takes nothing more once it has taken a part of a frame. -/
def Untorn (w : Writer) (c : Call) : Prop :=
  w.torn → (w.call c).stream = w.stream

instance (w : Writer) (c : Call) : Decidable (Untorn w c) :=
  inferInstanceAs (Decidable (_ → _))

section Frames
variable {n : Nat} {r : List Byte}

theorem uint32_putUint32 (h : n < 2 ^ 32) : uint32 (putUint32 n) = n := by
  simp only [uint32, putUint32, foldl_cons, foldl_nil, Nat.toUInt8_eq,
    UInt8.toNat_ofNat']
  omega

theorem length_putUint32 (n : Nat) : (putUint32 n).length = frameHeaderSize := rfl

theorem readFull_append {p : List Byte} (h : p.length = n) (rest : List Byte) :
    readFull n (p ++ rest) = .ok (p, rest) := by
  subst h
  simp [readFull]

theorem readFull_short (h : r.length < n) : (readFull n r).toOption = none := by
  unfold readFull
  rw [if_neg (by omega)]
  split_ifs <;> rfl

theorem readFull_eq_ok {p rest : List Byte} (h : readFull n r = .ok (p, rest)) :
    n ≤ r.length ∧ rest = r.drop n := by
  unfold readFull at h
  split_ifs at h with hn
  cases h
  exact ⟨hn, rfl⟩

theorem length_of_readFrame {maxSize : Int} {rest : List Byte} {p : Payload}
    (h : readFrame maxSize r = .ok (p, rest)) : rest.length < r.length := by
  unfold readFrame at h
  cases hhdr : readFull frameHeaderSize r with
  | error e => simp [hhdr] at h
  | ok x =>
    obtain ⟨hdr, body⟩ := x
    simp only [hhdr] at h
    split_ifs at h
    obtain ⟨hlen, rfl⟩ := readFull_eq_ok hhdr
    obtain ⟨-, rfl⟩ := readFull_eq_ok h
    have hsize : 0 < frameHeaderSize := by decide
    simp only [length_drop]
    omega

def Framable (p : Payload) : Prop :=
  p ≠ [] ∧ p.length < 2 ^ 32

theorem readFrame_header (maxSize : Int) (hpos : 0 < n) (hn : n < 2 ^ 32) (body : List Byte) :
    readFrame maxSize (putUint32 n ++ body) =
      if 0 < maxSize ∧ maxSize < n then .error .frameTooLarge else readFull n body := by
  have hhdr : readFull frameHeaderSize (putUint32 n ++ body) = .ok (putUint32 n, body) :=
    readFull_append (length_putUint32 n) body
  unfold readFrame
  simp only [hhdr, uint32_putUint32 hn]
  rw [if_neg (by omega)]

theorem readFrame_of_short_header (maxSize : Int) (h : r.length < frameHeaderSize) :
    (readFrame maxSize r).toOption = none := by
  have hnone := readFull_short h
  unfold readFrame
  cases hhdr : readFull frameHeaderSize r with
  | error e => rfl
  | ok x => simp [hhdr, Except.toOption] at hnone

theorem readFrame_of_short_body (maxSize : Int) {body : List Byte} (hn : n < 2 ^ 32)
    (h : body.length < n) : (readFrame maxSize (putUint32 n ++ body)).toOption = none := by
  rw [readFrame_header maxSize (by omega) hn]
  split_ifs
  · rfl
  · exact readFull_short h

theorem reads_readFrame (maxSize : Int) :
    Delimited.Reads (fun r => (readFrame maxSize r).toOption) frame Framable where
  shrinks := by
    intro r p rest h
    cases hread : readFrame maxSize r with
    | error e => simp [hread, Except.toOption] at h
    | ok x =>
      obtain rfl : x = (p, rest) := by simpa [hread, Except.toOption] using h
      exact length_of_readFrame hread
  whole := by
    rintro p rest ⟨hp, hlen⟩
    rw [frame, append_assoc, readFrame_header maxSize (length_pos_iff.mpr hp) hlen]
    split_ifs
    · exact .inr rfl
    · rw [readFull_append rfl]
      exact .inl rfl
  part := by
    rintro p bs ⟨hp, hlen⟩ ⟨missing, hpart⟩ hne
    -- The frame is cut inside its header or inside its payload.
    rcases append_eq_append_iff.mp hpart with ⟨cut, hhdr, -⟩ | ⟨body, rfl, hbody⟩
    · cases cut with
      | nil =>
        have hshort : ([] : List Byte).length < p.length := length_pos_iff.mpr hp
        rw [append_nil] at hhdr
        subst hhdr
        simpa using readFrame_of_short_body maxSize hlen hshort
      | cons b cut =>
        have hsize := congrArg length hhdr
        simp only [length_putUint32, length_append, length_cons] at hsize
        exact readFrame_of_short_header maxSize (by omega)
    · have hshort : body.length < p.length := by
        have hsize := congrArg length hbody
        rw [length_append] at hsize
        have hmissing : missing ≠ [] := by
          rintro rfl
          exact hne (by rw [frame, hbody, append_nil])
        have := length_pos_iff.mpr hmissing
        omega
      exact readFrame_of_short_body maxSize hlen hshort
  nil := rfl

theorem writeFull_accepted (outcomes : List Outcome) (p : List Byte) :
    (writeFull outcomes p).accepted <+: p ∧
      ((writeFull outcomes p).error = none → (writeFull outcomes p).accepted = p) := by
  fun_induction writeFull outcomes p with
  | case1 outcomes => simp
  | case2 p => simp
  | case3 o outcomes b p taken hfailed =>
    exact ⟨List.take_prefix _ _, by simp⟩
  | case4 o outcomes b p taken hfailed htaken => simp
  | case5 o outcomes b p taken hfailed htaken rest ih =>
    have hsplit : taken ++ (b :: p).drop o.accepted = b :: p := take_append_drop _ _
    refine ⟨?_, ?_⟩
    · calc taken ++ rest.accepted <+: taken ++ (b :: p).drop o.accepted :=
            (prefix_append_right_inj _).mpr ih.1
        _ = b :: p := hsplit
    · intro herror
      show taken ++ rest.accepted = b :: p
      rw [ih.2 herror, hsplit]

theorem writeFrame_accepted (outcomes : List Outcome) (p : Payload) :
    (writeFrame outcomes p).accepted <+: frame p ∧
      ((writeFrame outcomes p).error = none → (writeFrame outcomes p).accepted = frame p) ∧
      ((writeFrame outcomes p).accepted ≠ [] → p ≠ []) := by
  obtain ⟨hhdr, hhdrAll⟩ := writeFull_accepted outcomes (putUint32 p.length)
  unfold writeFrame
  split_ifs with hp
  · simp
  · cases herror : (writeFull outcomes (putUint32 p.length)).error with
    | some e =>
      simp only [herror]
      exact ⟨hhdr.trans (prefix_append _ _), by simp, fun _ => hp⟩
    | none =>
      obtain ⟨hbody, hbodyAll⟩ :=
        writeFull_accepted (writeFull outcomes (putUint32 p.length)).outcomes p
      simp only [herror, hhdrAll herror]
      refine ⟨(prefix_append_right_inj _).mpr hbody, ?_, fun _ => hp⟩
      intro h
      rw [hbodyAll h, frame]

end Frames

section Stream

/-- The stream holds the frames of some of the passed payloads, in their order, and at most at its
end a part of a frame. -/
def Framed (w : Writer) (passed : List Payload) : Prop :=
  ∃ (sent : List Payload) (last : List Byte), w.stream = sent.flatMap frame ++ last ∧
    sent.Sublist passed ∧ (∀ p ∈ sent, Framable p) ∧
    (last = [] ∨ ∃ p, Framable p ∧ last <+: frame p ∧ last ≠ frame p) ∧
    (w.torn = false → last = [])

variable {w t : Writer} {passed : List Payload}

theorem Framed.mono (h : Framed w passed) (hstream : t.stream = w.stream)
    (htorn : t.torn = false → w.torn = false) (more : List Payload) :
    Framed t (passed ++ more) := by
  obtain ⟨sent, last, heq, hsub, hsent, hlast, hnil⟩ := h
  exact ⟨sent, last, hstream.trans heq, hsub.trans (sublist_append_left _ _), hsent, hlast,
    fun h => hnil (htorn h)⟩

theorem Framed.put {p : Payload} {accepted : List Byte} (h : Framed w passed)
    (htorn : w.torn = false) (hpart : accepted <+: frame p) (hne : accepted ≠ [] → p ≠ [])
    (hlen : p.length < 2 ^ 32) : Framed (w.put p accepted) (passed ++ [p]) := by
  obtain ⟨sent, last, heq, hsub, hsent, -, hnil⟩ := h
  obtain rfl := hnil htorn
  by_cases hzero : accepted = []
  · subst hzero
    refine ⟨sent, [], ?_, hsub.trans (sublist_append_left _ _), hsent, .inl rfl,
      fun _ => rfl⟩
    simp [Writer.put, heq]
  · have hframable : Framable p := ⟨hne hzero, hlen⟩
    by_cases hall : accepted = frame p
    · refine ⟨sent ++ [p], [], ?_, hsub.append (List.Sublist.refl _), ?_, .inl rfl, fun _ => rfl⟩
      · simp [Writer.put, heq, hall]
      · exact forall_mem_snoc hsent hframable
    · refine ⟨sent, accepted, ?_, hsub.trans (sublist_append_left _ _), hsent,
        .inr ⟨p, hframable, hpart, hall⟩, ?_⟩
      · simp [Writer.put, heq]
      · simp [Writer.put, hzero, hall]

theorem Framed.writeAll {msgs : List Payload} (outcomes : List Outcome) (h : Framed w passed)
    (htorn : w.torn = false) (hlen : ∀ p ∈ msgs, p.length < 2 ^ 32) :
    Framed (w.writeAll msgs outcomes).1 (passed ++ msgs) := by
  induction msgs generalizing w passed outcomes with
  | nil => simpa [writeAll] using h
  | cons msg msgs ih =>
    obtain ⟨hpart, hall, hne⟩ := writeFrame_accepted outcomes msg
    have hput := h.put htorn hpart hne (hlen msg mem_cons_self)
    rw [append_cons]
    cases herror : (writeFrame outcomes msg).error with
    | some e =>
      simp only [writeAll, herror]
      exact hput.mono rfl id msgs
    | none =>
      have hkept : (w.put msg (writeFrame outcomes msg).accepted).torn = false := by
        simp [Writer.put, htorn, hall herror]
      simp only [writeAll, herror]
      exact ih _ hput hkept fun p hp => hlen p (mem_cons_of_mem msg hp)

theorem torn_put {p : Payload} {accepted : List Byte} (h : w.torn = true) :
    (w.put p accepted).torn = true := by
  simp [put, h]

theorem torn_writeAll {msgs : List Payload} (outcomes : List Outcome) (h : w.torn = true) :
    (w.writeAll msgs outcomes).1.torn = true := by
  induction msgs generalizing w outcomes with
  | nil => exact h
  | cons msg msgs ih =>
    cases herror : (writeFrame outcomes msg).error with
    | some e => simpa [writeAll, herror] using torn_put h
    | none => simpa [writeAll, herror] using ih _ (torn_put h)

theorem torn_call (c : Call) (h : w.torn = true) : (w.call c).torn = true := by
  cases c with
  | writeMany msgs outcomes =>
    simp only [call, writeMany]
    split_ifs
    · exact h
    · exact torn_writeAll outcomes h
  | markClosed =>
    simp only [call, markClosed]
    split_ifs <;> exact h
  | writeDisconnectFrame envelope outcomes =>
    cases envelope with
    | none => exact h
    | some p => exact torn_put h

theorem Framed.call {c : Call} (h : Framed w passed) (huntorn : Untorn w c)
    (hlen : ∀ p ∈ c.payloads, p.length < 2 ^ 32) :
    Framed (w.call c) (passed ++ c.payloads) := by
  cases htorn : w.torn with
  | true => exact h.mono (huntorn htorn) (by simp [torn_call c htorn]) _
  | false =>
    cases c with
    | writeMany msgs outcomes =>
      simp only [Writer.call, writeMany]
      split_ifs
      · exact h.mono rfl id msgs
      · exact h.writeAll outcomes htorn hlen
    | markClosed =>
      simp only [Writer.call, markClosed]
      split_ifs <;> exact h.mono rfl id []
    | writeDisconnectFrame envelope outcomes =>
      cases envelope with
      | none => exact h.mono rfl id []
      | some p =>
        obtain ⟨hpart, -, hne⟩ := writeFrame_accepted outcomes p
        exact h.put htorn hpart hne (hlen p (by simp [Call.payloads]))

/-- On a stream that takes nothing more once it has taken a part of a frame, a receiver decodes
some of the payloads that were passed to the writer, in the order in which they were passed. -/
theorem receive_sublist_payloads (maxSize : Int) {calls : List Call} {w : Writer}
    (hrun : run .newWriter calls = some w) (huntorn : Transition.Along step Untorn .newWriter calls)
    (hlen : ∀ p ∈ calls.flatMap Call.payloads, p.length < 2 ^ 32) :
    (receive maxSize w.stream).Sublist (calls.flatMap Call.payloads) := by
  have hframed : Framed w (calls.flatMap Call.payloads) := by
    refine Transition.run_induction (P := fun calls w => Transition.Along step Untorn .newWriter calls →
      (∀ p ∈ calls.flatMap Call.payloads, p.length < 2 ^ 32) →
      Framed w (calls.flatMap Call.payloads)) ?_ ?_ calls w hrun huntorn hlen
    · intro _ _
      exact ⟨[], [], rfl, List.Sublist.refl _, by simp, .inl rfl, fun _ => rfl⟩
    · intro calls w c t hbefore ih hstep hal hlen
      cases hstep
      rw [Transition.along_snoc_iff step hbefore] at hal
      simp only [flatMap_append, flatMap_cons, flatMap_nil, append_nil,
        mem_append] at hlen ⊢
      exact (ih hal.1 fun p hp => hlen p (.inl hp)).call hal.2 fun p hp => hlen p (.inr hp)
  obtain ⟨sent, last, heq, hsub, hsent, hlast, -⟩ := hframed
  rw [receive, heq]
  exact ((reads_readFrame maxSize).readAll_append hsent hlast).sublist.trans hsub

/-- Two messages of which the second is cut after its header, on a stream that then fails. -/
def cutCalls : List Call :=
  [.writeMany [[7, 8], [9]] [⟨4, false⟩, ⟨1, false⟩, ⟨1, false⟩, ⟨4, false⟩, ⟨0, true⟩],
    .markClosed, .writeDisconnectFrame (some [1]) [⟨0, true⟩]]

theorem receive_sublist_payloads_cut :
    ∃ w, run .newWriter cutCalls = some w ∧ w.torn = true ∧
      (receive 0 w.stream).Sublist (cutCalls.flatMap Call.payloads) :=
  ⟨_, rfl, by decide, receive_sublist_payloads 0 rfl (by decide +kernel) (by decide)⟩

/-- A message of three bytes is cut after its first byte, and the stream takes the disconnect frame:
the receiver decodes a payload that is made of both. -/
theorem receive_unwritten_payload :
    ∃ w, run .newWriter [.writeMany [[7, 8, 9]] [⟨4, false⟩, ⟨1, true⟩], .markClosed,
        .writeDisconnectFrame (some [5, 6]) []] = some w ∧
      receive 0 w.stream = [[7, 0, 0]] ∧
      ¬ (receive 0 w.stream).Sublist [[7, 8, 9], [5, 6]] :=
  ⟨_, rfl, by decide, by decide⟩

theorem writeAll_unfailed {msgs : List Payload} {outcomes : List Outcome}
    (h : (w.writeAll msgs outcomes).2 = none) :
    (w.writeAll msgs outcomes).1.stream = w.stream ++ msgs.flatMap frame ∧ [] ∉ msgs := by
  induction msgs generalizing w outcomes with
  | nil => simp [writeAll]
  | cons msg msgs ih =>
    cases herror : (writeFrame outcomes msg).error with
    | some e => simp [writeAll, herror] at h
    | none =>
      have hne : [] ≠ msg := by
        rintro rfl
        cases herror
      simp only [writeAll, herror] at h ⊢
      obtain ⟨hstream, hmsgs⟩ := ih h
      rw [hstream, put, (writeFrame_accepted outcomes msg).2.1 herror]
      simp [hmsgs, hne]

theorem receive_frames {maxSize : Int} {msgs : List Payload} (hne : [] ∉ msgs)
    (hfit : ∀ p ∈ msgs, p.length < 2 ^ 32 ∧ (0 < maxSize → p.length ≤ maxSize)) :
    receive maxSize (msgs.flatMap frame) = msgs := by
  induction msgs with
  | nil => rfl
  | cons p msgs ih =>
    rw [mem_cons, not_or] at hne
    obtain ⟨hlen, hmax⟩ := hfit p mem_cons_self
    have hread : readFrame maxSize (frame p ++ msgs.flatMap frame) = .ok (p, msgs.flatMap frame) := by
      rw [frame, append_assoc, readFrame_header maxSize (length_pos_iff.mpr (Ne.symm hne.1)) hlen,
        if_neg (by omega), readFull_append rfl]
    rw [receive, flatMap_cons, (reads_readFrame maxSize).readAll_some (by rw [hread]; rfl)]
    exact congrArg (p :: ·) (ih hne.2 fun q hq => hfit q (mem_cons_of_mem p hq))

/-- A receiver decodes what a `WriteMany` without an error was given, however the writes are cut. -/
theorem receive_writeMany {maxSize : Int} {msgs : List Payload} {outcomes : List Outcome}
    (h : (newWriter.writeMany msgs outcomes).2 = none)
    (hfit : ∀ p ∈ msgs, p.length < 2 ^ 32 ∧ (0 < maxSize → p.length ≤ maxSize)) :
    receive maxSize (newWriter.writeMany msgs outcomes).1.stream = msgs := by
  obtain ⟨hstream, hne⟩ := writeAll_unfailed h
  exact (congrArg (receive maxSize) hstream).trans (receive_frames hne hfit)

theorem receive_writeMany_cut :
    receive 2 (newWriter.writeMany [[7], [8, 9]] [⟨2, false⟩]).1.stream = [[7], [8, 9]] :=
  receive_writeMany (by decide) (by decide)

end Stream

end MessageLoop.Framing
