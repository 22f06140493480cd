import MessageLoop.Lib.Search

/-!
Raw payloads in a JSON frame (`spliceRawJSONPayloads` in `internal/session/hub.go`). The frame is
marshaled with an empty object in the place of each payload; the loop puts the payloads there, from
left to right, and searches for the next place behind the payload it has just put in.
-/

namespace MessageLoop.Splice

open List Search

/-- The bytes of `"json":{}`. -/
def jsonPayloadSplicePoint : List UInt8 :=
  [34, 106, 115, 111, 110, 34, 58, 123, 125]

def spliceLoop (out : List UInt8) (pos : Nat) : List (List UInt8) → Option (List UInt8)
  | [] => some out
  | raw :: raws =>
    match index jsonPayloadSplicePoint (out.drop pos) with
    | none => none
    | some j =>
      let i := j + pos
      -- `"json":` is kept from the placeholder; only the `{}` is replaced
      let next := out.take (i + jsonPayloadSplicePoint.length - 2) ++ raw ++
        out.drop (i + jsonPayloadSplicePoint.length)
      spliceLoop next (i + jsonPayloadSplicePoint.length - 2 + raw.length) raws

def spliceRawJSONPayloads (frame : List UInt8) (raws : List (List UInt8)) : Option (List UInt8) :=
  spliceLoop frame 0 raws

theorem unbordered_point : Unbordered jsonPayloadSplicePoint := by decide

theorem point_ne_nil : jsonPayloadSplicePoint ≠ [] := cons_ne_nil _ _

variable {f rest : List UInt8} {raws : List (List UInt8)}

/-- One turn of the loop leaves alone what it has `done`. -/
theorem spliceLoop_cons
    (h : index jsonPayloadSplicePoint (f ++ (jsonPayloadSplicePoint ++ rest)) = some f.length)
    (done raw : List UInt8) :
    spliceLoop (done ++ (f ++ (jsonPayloadSplicePoint ++ rest))) done.length (raw :: raws) =
      spliceLoop (done ++ f ++ jsonPayloadSplicePoint.take 7 ++ raw ++ rest)
        (done ++ f ++ jsonPayloadSplicePoint.take 7 ++ raw).length raws := by
  have htake : (done ++ (f ++ (jsonPayloadSplicePoint ++ rest))).take (f.length + done.length + 7) =
      done ++ f ++ jsonPayloadSplicePoint.take 7 := by
    rw [← append_assoc, Nat.add_comm f.length, ← length_append, take_length_add_append]
    rfl
  have hdrop : (done ++ (f ++ (jsonPayloadSplicePoint ++ rest))).drop
      (f.length + done.length + 9) = rest := by
    rw [← append_assoc, Nat.add_comm f.length, ← length_append, drop_length_add_append]
    rfl
  have hpos : (done ++ f ++ jsonPayloadSplicePoint.take 7 ++ raw).length =
      f.length + done.length + 7 + raw.length := by
    simp only [length_append]
    have hseven : (jsonPayloadSplicePoint.take 7).length = 7 := rfl
    omega
  rw [spliceLoop, drop_left, h, hpos]
  change spliceLoop (take (f.length + done.length + 7) _ ++ raw ++
    drop (f.length + done.length + 9) _) (f.length + done.length + 7 + raw.length) raws = _
  rw [htake, hdrop]

theorem spliceLoop_fills (parts : List (List UInt8 × List UInt8)) (done f : List UInt8)
    (hf : ¬ jsonPayloadSplicePoint <:+: f)
    (hparts : ∀ p ∈ parts, ¬ jsonPayloadSplicePoint <:+: p.2) :
    spliceLoop (done ++ (f ++ parts.flatMap fun p => jsonPayloadSplicePoint ++ p.2)) done.length
        (parts.map Prod.fst) =
      some (done ++ (f ++ parts.flatMap fun p => jsonPayloadSplicePoint.take 7 ++ p.1 ++ p.2)) := by
  induction parts generalizing done f with
  | nil => rfl
  | cons p parts ih =>
    obtain ⟨hp, hparts⟩ := forall_mem_cons.mp hparts
    rw [flatMap_cons, append_assoc jsonPayloadSplicePoint, map_cons,
      spliceLoop_cons (index_append unbordered_point point_ne_nil hf _), ih _ p.2 hp hparts]
    simp only [flatMap_cons, append_assoc]

theorem spliceLoop_missing (done : List UInt8)
    (h : occurrences jsonPayloadSplicePoint rest < raws.length) :
    spliceLoop (done ++ rest) done.length raws = none := by
  induction raws generalizing done rest with
  | nil => cases h
  | cons raw raws ih =>
    cases hj : index jsonPayloadSplicePoint rest with
    | none => rw [spliceLoop, drop_left, hj]
    | some j =>
      obtain ⟨f, tail, rfl, rfl⟩ := exists_append_of_index hj
      rw [spliceLoop_cons hj]
      exact ih _ (lt_of_lt_of_le (occurrences_lt_append point_ne_nil f tail) (Nat.le_of_lt_succ h))

/-- Payloads take the places left for them, whatever they hold themselves, and a frame with too few
places is refused. -/
theorem splice_payloads (f : List UInt8) (parts : List (List UInt8 × List UInt8))
    (hf : ¬ jsonPayloadSplicePoint <:+: f)
    (hparts : ∀ p ∈ parts, ¬ jsonPayloadSplicePoint <:+: p.2) :
    spliceRawJSONPayloads (f ++ parts.flatMap fun p => jsonPayloadSplicePoint ++ p.2)
        (parts.map Prod.fst) =
      some (f ++ parts.flatMap fun p => jsonPayloadSplicePoint.take 7 ++ p.1 ++ p.2) ∧
    ∀ frame raws, occurrences jsonPayloadSplicePoint frame < raws.length →
      spliceRawJSONPayloads frame raws = none :=
  ⟨spliceLoop_fills parts [] f hf hparts, fun _ _ => spliceLoop_missing []⟩

/-- Two places, and payloads that hold the splice point. -/
theorem splice_payloads_nested :
    spliceRawJSONPayloads ([1] ++ jsonPayloadSplicePoint ++ [2] ++ jsonPayloadSplicePoint)
        [jsonPayloadSplicePoint, jsonPayloadSplicePoint] =
      some ([1] ++ jsonPayloadSplicePoint.take 7 ++ jsonPayloadSplicePoint ++ [2] ++
        jsonPayloadSplicePoint.take 7 ++ jsonPayloadSplicePoint) := by
  have h := (splice_payloads [1] [(jsonPayloadSplicePoint, [2]), (jsonPayloadSplicePoint, [])]
    (by decide) (by decide)).1
  exact h

end MessageLoop.Splice
