import Mathlib.Data.Finset.SDiff
import Mathlib.Data.Finset.Erase

/-!
A finite set under a log of insertions and removals: an element is in the set exactly if the last
change of it was an insertion. Two orders of the same changes give the same set exactly if they end
in the same change of every element.
-/

namespace Toggle

universe u
variable {α : Type u} [DecidableEq α]

def change (s : Finset α) (c : α × Bool) : Finset α :=
  if c.2 then insert c.1 s else s.erase c.1

def apply (s : Finset α) (log : List (α × Bool)) : Finset α :=
  log.foldl change s

def last : List (α × Bool) → α → Option Bool
  | [], _ => none
  | c :: log, x => (last log x).or (if c.1 = x then some c.2 else none)

variable {s : Finset α} {log log' : List (α × Bool)} {x : α}

@[simp] theorem apply_nil : apply s [] = s := rfl

theorem apply_append : apply s (log ++ log') = apply (apply s log) log' :=
  List.foldl_append

theorem mem_change {c : α × Bool} : x ∈ change s c ↔ if c.1 = x then c.2 = true else x ∈ s := by
  unfold change
  by_cases hx : c.1 = x
  · cases hc : c.2 <;> simp [hx]
  · cases hc : c.2 <;> simp [hx, Ne.symm hx]

theorem mem_apply : x ∈ apply s log ↔ (last log x).getD (decide (x ∈ s)) = true := by
  induction log generalizing s with
  | nil => simp [last]
  | cons c log ih =>
    have hstep : apply s (c :: log) = apply (change s c) log := rfl
    rw [hstep, ih, last]
    cases hlast : last log x with
    | some b => simp
    | none =>
      by_cases hx : c.1 = x
      · simp [mem_change, hx]
      · simp [mem_change, hx]

theorem last_map (l : List α) (b : Bool) :
    last (l.map (·, b)) x = if x ∈ l then some b else none := by
  induction l with
  | nil => rfl
  | cons a l ih => by_cases hx : x ∈ l <;> simp [last, ih, hx, eq_comm]

theorem apply_insertions (l : List α) : apply s (l.map (·, true)) = s ∪ l.toFinset := by
  ext x
  by_cases hx : x ∈ l <;> simp [mem_apply, last_map, hx]

theorem apply_removals (l : List α) : apply s (l.map (·, false)) = s \ l.toFinset := by
  ext x
  by_cases hx : x ∈ l <;> simp [mem_apply, last_map, hx]

theorem last_eq_none_iff : last log x = none ↔ ∀ c ∈ log, c.1 ≠ x := by
  induction log with
  | nil => simp [last]
  | cons c log ih => simp [last, ih, and_comm]

theorem apply_eq_iff (hperm : log.Perm log') :
    apply s log = apply s log' ↔ ∀ x, last log x = last log' x := by
  constructor
  · intro heq x
    have hnone : last log x = none ↔ last log' x = none := by
      rw [last_eq_none_iff, last_eq_none_iff]
      exact ⟨fun h c hc => h c (hperm.mem_iff.mpr hc), fun h c hc => h c (hperm.mem_iff.mp hc)⟩
    have hmem : x ∈ apply s log ↔ x ∈ apply s log' := by rw [heq]
    rw [mem_apply, mem_apply] at hmem
    cases hlog : last log x with
    | none => exact (hnone.mp hlog).symm
    | some b =>
      cases hlog' : last log' x with
      | none =>
        rw [hnone.mpr hlog'] at hlog
        cases hlog
      | some b' =>
        rw [hlog, hlog', Option.getD_some, Option.getD_some] at hmem
        rw [Bool.eq_iff_iff.mpr hmem]
  · intro hlast
    ext x
    rw [mem_apply, mem_apply, hlast x]

end Toggle
