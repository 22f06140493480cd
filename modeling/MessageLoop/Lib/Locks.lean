import Mathlib.Tactic.Common

/-!
Processes that exclude each other by locks: a list of processes, and for each process the locks
it is inside of.
-/

namespace Locks

open List

universe u v
variable {α : Type u} {κ : Type v} {holds : α → κ → Prop} {ps qs : List α} {k : Nat} {a b d : α}

def Exclusive (holds : α → κ → Prop) (ps : List α) : Prop :=
  ∀ (i j : Nat) (a b : α) (lock : κ), ps[i]? = some a → ps[j]? = some b →
    holds a lock → holds b lock → i = j

theorem getElem?_set_cases {j : Nat} (h : (ps.set k b)[j]? = some d) :
    j = k ∧ d = b ∨ j ≠ k ∧ ps[j]? = some d := by
  rw [getElem?_set] at h
  split_ifs at h with hkj
  · cases h
    exact .inl ⟨hkj.symm, rfl⟩
  · exact .inr ⟨fun he => hkj he.symm, h⟩

theorem mem_set_of_ne {j : Nat} (hj : ps[j]? = some d) (hne : j ≠ k) :
    d ∈ ps.set k b := by
  apply mem_of_getElem? (i := j)
  rw [getElem?_set_ne hne.symm]
  exact hj

theorem mem_set_of_mem_ne (hk : ps[k]? = some a) (hd : d ∈ ps) (hne : d ≠ a) : d ∈ ps.set k b := by
  obtain ⟨j, hj⟩ := mem_iff_getElem?.mp hd
  apply mem_set_of_ne hj
  rintro rfl
  exact hne (Option.some.inj (hj.symm.trans hk))

theorem forall_mem_set_of_ne {P : α → Prop} (hb : P b)
    (hothers : ∀ (j : Nat) d, j ≠ k → ps[j]? = some d → P d) : ∀ d ∈ ps.set k b, P d := by
  intro d hd
  obtain ⟨j, hj⟩ := mem_iff_getElem?.mp hd
  rcases getElem?_set_cases hj with ⟨-, rfl⟩ | ⟨hne, hj⟩
  · exact hb
  · exact hothers j d hne hj

theorem mem_set_self (hk : ps[k]? = some a) : b ∈ ps.set k b :=
  List.mem_set (List.getElem?_eq_some_iff.mp hk).1 b

theorem exists_mem_set_or {P : α → Prop} {Q : Prop} (hk : ps[k]? = some a) (hab : P a → P b ∨ Q)
    (h : ∃ d ∈ ps, P d) :
    (∃ d ∈ ps.set k b, P d) ∨ Q := by
  obtain ⟨d, hd, hP⟩ := h
  obtain ⟨j, hj⟩ := mem_iff_getElem?.mp hd
  by_cases hjk : j = k
  · subst hjk
    cases hk.symm.trans hj
    exact (hab hP).imp_left fun hb => ⟨b, mem_set_self hk, hb⟩
  · exact .inl ⟨d, mem_set_of_ne hj hjk, hP⟩

theorem exists_mem_set {P : α → Prop} (hk : ps[k]? = some a) (hab : P a → P b) (h : ∃ d ∈ ps, P d) :
    ∃ d ∈ ps.set k b, P d :=
  (exists_mem_set_or hk (fun ha => .inl (hab ha)) h).resolve_right id

section Separate
variable {writes uses : α → Prop}

def Separate (writes uses : α → Prop) (ps : List α) : Prop :=
  ∀ (i j : Nat) (a b : α), ps[i]? = some a → ps[j]? = some b → writes a → uses b → i = j

theorem separate_nil : Separate writes uses ([] : List α) := by
  intro i j a b hi
  cases hi

/-- A process may go on with what it does, start to use what nobody writes, and start to write what
nobody uses. -/
theorem Separate.set (h : Separate writes uses ps) (hk : ps[k]? = some a)
    (huse : uses b → uses a ∨ ∀ (j : Nat) d, j ≠ k → ps[j]? = some d → ¬ writes d)
    (hwrite : writes b → writes a ∨ ∀ (j : Nat) d, j ≠ k → ps[j]? = some d → ¬ uses d) :
    Separate writes uses (ps.set k b) := by
  intro i j d e hi hj hd he
  rcases getElem?_set_cases hi with ⟨rfl, rfl⟩ | ⟨hik, hdi⟩
  · rcases getElem?_set_cases hj with ⟨rfl, -⟩ | ⟨hjk, hej⟩
    · rfl
    · rcases hwrite hd with ha | hfree
      · exact h i j a e hk hej ha he
      · exact absurd he (hfree j e hjk hej)
  · rcases getElem?_set_cases hj with ⟨rfl, rfl⟩ | ⟨-, hej⟩
    · rcases huse he with ha | hfree
      · exact h i j d a hdi hk hd ha
      · exact absurd hd (hfree i d hik hdi)
    · exact h i j d e hdi hej hd he

theorem Separate.append (h : Separate writes uses ps) (hqs : Separate writes uses qs)
    (huse : ∀ d ∈ qs, uses d → ∀ a ∈ ps, ¬ writes a)
    (hwrite : ∀ d ∈ qs, writes d → ∀ a ∈ ps, ¬ uses a) : Separate writes uses (ps ++ qs) := by
  intro i j a b hi hj ha hb
  rw [getElem?_append] at hi hj
  split_ifs at hi hj
  · exact h i j a b hi hj ha hb
  · exact absurd ha (huse b (mem_of_getElem? hj) hb a (mem_of_getElem? hi))
  · exact absurd hb (hwrite a (mem_of_getElem? hi) ha b (mem_of_getElem? hj))
  · have := hqs (i - ps.length) (j - ps.length) a b hi hj ha hb
    omega

theorem Separate.append_idle (h : Separate writes uses ps) (hidle : ∀ d ∈ qs, ¬ writes d)
    (huse : ∀ d ∈ qs, uses d → ∀ a ∈ ps, ¬ writes a) : Separate writes uses (ps ++ qs) :=
  h.append (fun _ _ a _ hi _ ha _ => absurd ha (hidle a (mem_of_getElem? hi))) huse
    fun d hd hwrites => absurd hwrites (hidle d hd)

end Separate

theorem exclusive_iff : Exclusive holds ps ↔ ∀ lock, Separate (holds · lock) (holds · lock) ps :=
  ⟨fun h lock i j a b => h i j a b lock, fun h i j a b lock => h lock i j a b⟩

theorem exclusive_nil : Exclusive holds ([] : List α) :=
  exclusive_iff.mpr fun _ => separate_nil

theorem Exclusive.set (h : Exclusive holds ps) (hk : ps[k]? = some a)
    (htake : ∀ lock, holds b lock → holds a lock ∨ ∀ d ∈ ps, ¬ holds d lock) :
    Exclusive holds (ps.set k b) := by
  have hothers : ∀ lock, holds b lock →
      holds a lock ∨ ∀ (j : Nat) d, j ≠ k → ps[j]? = some d → ¬ holds d lock :=
    fun lock hb => (htake lock hb).imp_right fun hfree _ d _ hj => hfree d (mem_of_getElem? hj)
  exact exclusive_iff.mpr fun lock =>
    (exclusive_iff.mp h lock).set hk (hothers lock) (hothers lock)

theorem Exclusive.append (h : Exclusive holds ps) (hidle : ∀ d ∈ qs, ∀ lock, ¬ holds d lock) :
    Exclusive holds (ps ++ qs) :=
  exclusive_iff.mpr fun lock => (exclusive_iff.mp h lock).append_idle
    (fun d hd => hidle d hd lock) fun d hd hholds => absurd hholds (hidle d hd lock)

theorem Exclusive.concat (h : Exclusive holds ps)
    (hfree : ∀ lock, holds a lock → ∀ d ∈ ps, ¬ holds d lock) : Exclusive holds (ps ++ [a]) := by
  have hnew : ∀ lock, ∀ d ∈ [a], holds d lock → ∀ e ∈ ps, ¬ holds e lock :=
    fun lock => forall_mem_singleton.mpr (hfree lock)
  refine exclusive_iff.mpr fun lock =>
    (exclusive_iff.mp h lock).append ?_ (hnew lock) (hnew lock)
  intro i j _ _ hi hj _ _
  have hi : i < 1 := (List.getElem?_eq_some_iff.mp hi).1
  have hj : j < 1 := (List.getElem?_eq_some_iff.mp hj).1
  omega

end Locks
