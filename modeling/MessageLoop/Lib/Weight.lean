import Mathlib.Algebra.BigOperators.Group.Finset.Basic
import Mathlib.Algebra.GroupWithZero.Nat

/-! Sums of natural weights over a list or a finite family when one element is replaced. -/

namespace Weight

universe u v
variable {α : Type u} {ι : Type v}

theorem sum_map_eraseIdx (f : α → Nat) {xs : List α} {k : Nat} {x : α} (h : xs[k]? = some x) :
    ((xs.eraseIdx k).map f).sum + f x = (xs.map f).sum := by
  obtain ⟨hk, rfl⟩ := List.getElem?_eq_some_iff.mp h
  have hperm := ((List.getElem_cons_eraseIdx_perm hk).map f).sum_eq
  rw [List.map_cons, List.sum_cons] at hperm
  omega

theorem sum_map_set (f : α → Nat) {xs : List α} {k : Nat} {x : α} (y : α)
    (h : xs[k]? = some x) : ((xs.set k y).map f).sum + f x = (xs.map f).sum + f y := by
  obtain ⟨hk, -⟩ := List.getElem?_eq_some_iff.mp h
  have hperm := ((List.set_perm_cons_eraseIdx hk y).map f).sum_eq
  rw [List.map_cons, List.sum_cons] at hperm
  have := sum_map_eraseIdx f h
  omega

theorem sum_update [DecidableEq ι] (f : α → Nat) {s : Finset ι} {i : ι} (hi : i ∈ s) (g : ι → α)
    (y : α) :
    ∑ j ∈ s, f (Function.update g i y j) + f (g i) = ∑ j ∈ s, f (g j) + f y := by
  have hrest : ∑ j ∈ s.erase i, f (Function.update g i y j) = ∑ j ∈ s.erase i, f (g j) :=
    Finset.sum_congr rfl fun j hj => by rw [Function.update_of_ne (Finset.ne_of_mem_erase hj)]
  rw [← Finset.add_sum_erase s (fun j => f (Function.update g i y j)) hi,
    ← Finset.add_sum_erase s (fun j => f (g j)) hi, hrest, Function.update_self]
  omega

end Weight
