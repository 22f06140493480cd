import Mathlib.Data.List.Basic
import Mathlib.Order.BoundedOrder.Basic
import Mathlib.Order.Lattice

/-!
A receiver that drops what is not above its high-water mark.

Elements carry a key in a linear order with a least element. An arrival passes when its key is
least (such elements are never compared) or strictly above the mark, which then rises to the key.
`fanout` repeats each element, as a sender that may deliver several copies of one element does.
-/

namespace HighWater

open List

variable {α κ : Type} [LinearOrder κ] [OrderBot κ] (key : α → κ)

def Passes (mark : κ) (x : α) : Prop :=
  key x = ⊥ ∨ mark < key x

instance (mark : κ) (x : α) : Decidable (Passes key mark x) :=
  inferInstanceAs (Decidable (_ ∨ _))

def mark (m : κ) (xs : List α) : κ :=
  xs.foldl (fun m x => m ⊔ key x) m

def passed : κ → List α → List α
  | _, [] => []
  | m, x :: xs => if Passes key m x then x :: passed (m ⊔ key x) xs else passed m xs

def fanout (ps : List (α × Nat)) : List α :=
  ps.flatMap fun p => List.replicate (p.2 + 1) p.1

def Increasing (xs : List α) : Prop :=
  xs.Pairwise fun x y => key x < key y

def Single (ps : List (α × Nat)) : Prop :=
  ∀ p ∈ ps, key p.1 = ⊥ → p.2 = 0

theorem sup_eq_of_not_passes {m : κ} {x : α} (h : ¬ Passes key m x) : m ⊔ key x = m := by
  simp only [Passes, not_or, not_lt] at h
  exact sup_eq_left.mpr h.2

theorem passed_append (m : κ) (xs ys : List α) :
    passed key m (xs ++ ys) = passed key m xs ++ passed key (mark key m xs) ys := by
  induction xs generalizing m with
  | nil => rfl
  | cons x xs ih =>
    by_cases h : Passes key m x
    · simp [passed, mark, h, ih]
    · simp [passed, mark, h, ih, sup_eq_of_not_passes key h]

omit [OrderBot κ] in
theorem mark_snoc (m : κ) (xs : List α) (x : α) :
    mark key m (xs ++ [x]) = mark key m xs ⊔ key x := by
  simp [mark]

theorem passed_sublist (m : κ) (xs : List α) : (passed key m xs).Sublist xs := by
  induction xs generalizing m with
  | nil => exact List.Sublist.refl _
  | cons x xs ih =>
    by_cases h : Passes key m x
    · simpa [passed, h] using ih _
    · simpa [passed, h] using (ih m).cons x

theorem filter_bot_sublist_passed (m : κ) (xs : List α) :
    (xs.filter (key · = ⊥)).Sublist (passed key m xs) := by
  induction xs generalizing m with
  | nil => exact List.Sublist.refl _
  | cons x xs ih =>
    by_cases hx : key x = ⊥
    · simpa [passed, Passes, hx] using ih _
    · by_cases h : Passes key m x
      · simpa [passed, h, hx] using (ih _).cons x
      · simpa [passed, h, hx] using ih m

theorem passed_of_passes {m : κ} {x : α} (h : Passes key m x) (ys : List α) :
    passed key m (x :: ys) = x :: passed key (m ⊔ key x) ys := by
  simp [passed, h]

theorem passed_of_le {m : κ} {x : α} (hx : key x ≠ ⊥) (hm : key x ≤ m) (ys : List α) :
    passed key m (x :: ys) = passed key m ys := by
  simp [passed, Passes, hx, not_lt.mpr hm]

theorem passed_replicate {x : α} (hx : key x ≠ ⊥) (m : κ) (n : Nat) (ys : List α) :
    passed key m (List.replicate (n + 1) x ++ ys) = passed key m (x :: ys) := by
  induction n with
  | zero => rfl
  | succ n ih =>
    rw [← ih, replicate_succ, replicate_succ, cons_append, cons_append]
    by_cases h : Passes key m x
    · rw [passed_of_passes key h, passed_of_le key hx le_sup_right, passed_of_passes key h]
    · simp [passed, h]

theorem passed_fanout {ps : List (α × Nat)} (hs : Single key ps) (m : κ) :
    passed key m (fanout ps) = passed key m (ps.map Prod.fst) := by
  induction ps generalizing m with
  | nil => rfl
  | cons p ps ih =>
    have htail : Single key ps := fun q hq => hs q (mem_cons_of_mem _ hq)
    have hcopies : passed key m (fanout (p :: ps)) = passed key m (p.1 :: fanout ps) := by
      by_cases hp : key p.1 = ⊥
      · simp [fanout, hs p mem_cons_self hp]
      · exact passed_replicate key hp m p.2 _
    rw [hcopies, map_cons]
    simp only [passed, ih htail]

theorem passed_increasing {m : κ} {xs : List α} (hm : ∀ x ∈ xs, Passes key m x)
    (hinc : Increasing key xs) : passed key m xs = xs := by
  induction xs generalizing m with
  | nil => rfl
  | cons x xs ih =>
    obtain ⟨hhead, htail⟩ := pairwise_cons.mp hinc
    have hrest : ∀ y ∈ xs, Passes key (m ⊔ key x) y := by
      intro y hy
      have hlt := hhead y hy
      rcases hm y (mem_cons_of_mem _ hy) with hbot | habove
      · exact absurd (hbot ▸ hlt) not_lt_bot
      · exact .inr (sup_lt_iff.mpr ⟨habove, hlt⟩)
    simp [passed, hm x mem_cons_self, ih hrest htail]

theorem single_of_increasing {ps : List (α × Nat)} {m : κ}
    (hinc : Increasing key (passed key m (fanout ps))) : Single key ps := by
  intro p hp hbot
  by_contra hne
  have hcopies : (replicate 2 p.1).Sublist (fanout ps) :=
    ((replicate_sublist_replicate p.1).mpr (by omega : 2 ≤ p.2 + 1)).trans
      (sublist_flatten_of_mem (mem_map_of_mem hp))
  have hkept := (hcopies.filter (key · = ⊥)).trans (filter_bot_sublist_passed key m _)
  have := hinc.sublist hkept
  simp [hbot] at this

theorem passed_fanout_eq {ps : List (α × Nat)} (hinc : Increasing key (ps.map Prod.fst))
    (hs : Single key ps) : passed key ⊥ (fanout ps) = ps.map Prod.fst := by
  have hpass : ∀ x ∈ ps.map Prod.fst, Passes key ⊥ x := fun x _ =>
    (eq_or_ne (key x) ⊥).imp_right bot_lt_iff_ne_bot.mpr
  rw [passed_fanout key hs, passed_increasing key hpass hinc]

/-- The receiver passes on every element once and in increasing order exactly when the sender
sends in increasing order, with a single copy of an element whose key is least. -/
theorem passed_fanout_perm_iff (ps : List (α × Nat)) :
    (Increasing key (passed key ⊥ (fanout ps)) ∧
        (passed key ⊥ (fanout ps)).Perm (ps.map Prod.fst)) ↔
      Increasing key (ps.map Prod.fst) ∧ Single key ps := by
  constructor
  · rintro ⟨hinc, hperm⟩
    have hs := single_of_increasing key hinc
    rw [passed_fanout key hs] at hinc hperm
    have heq := (passed_sublist key ⊥ (ps.map Prod.fst)).eq_of_length hperm.length_eq
    exact ⟨heq ▸ hinc, hs⟩
  · rintro ⟨hinc, hs⟩
    rw [passed_fanout_eq key hinc hs]
    exact ⟨hinc, List.Perm.refl _⟩

end HighWater
