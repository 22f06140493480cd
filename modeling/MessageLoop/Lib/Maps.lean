import Mathlib.Data.Finmap

/-!
Entries of a finite map after an insertion or a deletion.
-/

namespace Finmap

universe u v
variable {α : Type u} {β : α → Type v} [DecidableEq α] {m : Finmap β} {a x : α} {b : β a}

theorem keys_insert : (m.insert a b).keys = Insert.insert a m.keys := by
  ext x
  simp [mem_keys]

theorem lookup_of_erase {c : β x} (h : (m.erase a).lookup x = some c) : m.lookup x = some c := by
  by_cases hx : x = a
  · subst hx
    rw [lookup_erase] at h
    cases h
  · rwa [lookup_erase_ne hx] at h

theorem forall_lookup_insert {P : ∀ x, β x → Prop} (hnew : P a b)
    (hold : ∀ x c, m.lookup x = some c → P x c) : ∀ x c, (m.insert a b).lookup x = some c → P x c := by
  intro x c h
  by_cases hx : x = a
  · subst hx
    rw [lookup_insert] at h
    exact Option.some.inj h ▸ hnew
  · rw [lookup_insert_of_ne _ hx] at h
    exact hold x c h

theorem erase_insert_of_notMem (h : a ∉ m) : (m.insert a b).erase a = m := by
  apply ext_lookup
  intro x
  by_cases hx : x = a
  · subst hx
    rw [lookup_erase, lookup_eq_none.mpr h]
  · rw [lookup_erase_ne hx, lookup_insert_of_ne _ hx]

theorem insert_erase_of_lookup (h : m.lookup a = some b) : (m.erase a).insert a b = m := by
  apply ext_lookup
  intro x
  by_cases hx : x = a
  · subst hx
    rw [lookup_insert, h]
  · rw [lookup_insert_of_ne _ hx, lookup_erase_ne hx]

end Finmap
