import Mathlib.Data.List.Infix

/-!
Search for a pattern in a list.

A pattern without a border does not overlap itself: an occurrence that begins before another one
has ended would put a part of the pattern both at its front and at its end. The first occurrence
after a text without the pattern is then the one that was put there.
-/

namespace Search

open List

universe u
variable {α : Type u} [DecidableEq α] {p s f : List α} {i : Nat}

def index (p : List α) : List α → Option Nat
  | [] => if p = [] then some 0 else none
  | a :: s => if p.isPrefixOf (a :: s) then some 0 else (index p s).map (· + 1)

def occurrences (p : List α) : List α → Nat
  | [] => if p = [] then 1 else 0
  | a :: s => (if p.isPrefixOf (a :: s) then 1 else 0) + occurrences p s

def Unbordered (p : List α) : Prop :=
  ∀ k < p.length, 0 < k → p.drop k ≠ p.take (p.length - k)

instance (p : List α) : Decidable (Unbordered p) :=
  inferInstanceAs (Decidable (∀ k < p.length, _))

omit [DecidableEq α] in
theorem Unbordered.not_prefix_append (hp : Unbordered p) (hf : ¬ p <:+: f) (hne : f ≠ [])
    (rest : List α) : ¬ p <+: f ++ (p ++ rest) := by
  intro h
  rcases Nat.lt_or_ge f.length p.length with hlt | hle
  · -- the occurrence ends inside the next one, and its end is the front of that
    apply hp f.length hlt (length_pos_of_ne_nil hne)
    obtain ⟨t, ht⟩ := h
    have hdrop := congrArg (drop f.length) ht
    rw [drop_left, drop_append_of_le_length hlt.le] at hdrop
    have htake := congrArg (take (p.length - f.length)) hdrop
    rwa [take_left' (by simp), take_append_of_le_length (by omega)] at htake
  · exact hf (prefix_of_prefix_length_le h (prefix_append f _) hle).isInfix

theorem index_append (hp : Unbordered p) (hpos : p ≠ []) (hf : ¬ p <:+: f) (rest : List α) :
    index p (f ++ (p ++ rest)) = some f.length := by
  induction f with
  | nil =>
    obtain ⟨a, p, rfl⟩ := exists_cons_of_ne_nil hpos
    simp [index]
  | cons a f ih =>
    have hnot := hp.not_prefix_append hf (cons_ne_nil a f) rest
    rw [← isPrefixOf_iff_prefix] at hnot
    have hrest : ¬ p <:+: f := fun h => hf (h.trans (suffix_cons a f).isInfix)
    rw [cons_append] at hnot ⊢
    rw [index, if_neg hnot, ih hrest]
    rfl

theorem exists_append_of_index (h : index p s = some i) :
    ∃ f rest, s = f ++ (p ++ rest) ∧ f.length = i := by
  induction s generalizing i with
  | nil =>
    rw [index] at h
    split_ifs at h with hp
    cases h
    exact ⟨[], [], by simp [hp], rfl⟩
  | cons a s ih =>
    rw [index] at h
    split_ifs at h with hp
    · cases h
      obtain ⟨rest, hrest⟩ := isPrefixOf_iff_prefix.mp hp
      exact ⟨[], rest, hrest.symm, rfl⟩
    · obtain ⟨j, hj, rfl⟩ := Option.map_eq_some_iff.mp h
      obtain ⟨f, rest, rfl, rfl⟩ := ih hj
      exact ⟨a :: f, rest, rfl, rfl⟩

theorem occurrences_le_append (f s : List α) : occurrences p s ≤ occurrences p (f ++ s) := by
  induction f with
  | nil => exact Nat.le_refl _
  | cons a f ih => exact ih.trans (Nat.le_add_left ..)

theorem occurrences_lt_append (hp : p ≠ []) (f rest : List α) :
    occurrences p rest < occurrences p (f ++ (p ++ rest)) := by
  refine lt_of_lt_of_le ?_ (occurrences_le_append f _)
  cases p with
  | nil => exact absurd rfl hp
  | cons a q =>
    have hprefix : (a :: q).isPrefixOf (a :: (q ++ rest)) = true :=
      isPrefixOf_iff_prefix.mpr (prefix_append (a :: q) rest)
    rw [cons_append, occurrences, if_pos hprefix]
    exact Nat.lt_one_add_iff.mpr (occurrences_le_append q rest)

end Search
