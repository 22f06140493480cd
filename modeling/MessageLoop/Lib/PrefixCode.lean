import Mathlib.Data.List.Basic

/-!
Codes of which no word is a proper beginning of another: what follows a word is determined by the
bytes, so words can be written one after the other and taken apart again.
-/

namespace PrefixCode

open List

universe u v w
variable {α : Type u} {β : Type v} {γ : Type w}

def PrefixFree (encode : α → List β) : Prop :=
  ∀ a b rest rest', encode a ++ rest = encode b ++ rest' → a = b ∧ rest = rest'

variable {encode : α → List β}

theorem PrefixFree.injective (h : PrefixFree encode) : Function.Injective encode := by
  intro a b hab
  exact (h a b [] [] (by rw [hab])).1

theorem PrefixFree.append_const (h : PrefixFree encode) (tail : List β) :
    PrefixFree (fun a => encode a ++ tail) := by
  intro a b rest rest' hab
  rw [append_assoc, append_assoc] at hab
  obtain ⟨rfl, hrest⟩ := h a b _ _ hab
  exact ⟨rfl, append_cancel_left hrest⟩

theorem PrefixFree.pair {encode' : γ → List β} (h : PrefixFree encode) (h' : PrefixFree encode') :
    PrefixFree (fun p : α × γ => encode p.1 ++ encode' p.2) := by
  intro p q rest rest' hpq
  rw [append_assoc, append_assoc] at hpq
  obtain ⟨h₁, hrest⟩ := h _ _ _ _ hpq
  obtain ⟨h₂, hrest⟩ := h' _ _ _ _ hrest
  exact ⟨Prod.ext h₁ h₂, hrest⟩

section Stop
variable {stop : β} {xs ys rest rest' : List β}

/-- The first `stop` of a list is where it is cut. -/
theorem append_stop_inj (hxs : stop ∉ xs) (hys : stop ∉ ys)
    (h : xs ++ stop :: rest = ys ++ stop :: rest') : xs = ys ∧ rest = rest' := by
  rcases append_eq_append_iff.mp h with ⟨between, rfl, hrest⟩ | ⟨between, rfl, hrest⟩
  · cases between with
    | nil => simpa using hrest
    | cons y between =>
      obtain ⟨rfl, -⟩ := cons.inj hrest
      simp at hys
  · cases between with
    | nil => simpa using hrest.symm
    | cons y between =>
      obtain ⟨rfl, -⟩ := cons.inj hrest
      simp at hxs

theorem append_last_stop_inj (hrest : stop ∉ rest) (hrest' : stop ∉ rest')
    (h : xs ++ stop :: rest = ys ++ stop :: rest') : xs = ys ∧ rest = rest' := by
  obtain ⟨hafter, hbefore⟩ := append_stop_inj (mem_reverse.not.mpr hrest)
    (mem_reverse.not.mpr hrest') (by simpa using congrArg reverse h)
  exact ⟨reverse_inj.mp hbefore, reverse_inj.mp hafter⟩

theorem prefixFree_terminated (hinj : Function.Injective encode) (hstop : ∀ a, stop ∉ encode a) :
    PrefixFree (fun a => encode a ++ [stop]) := by
  intro a b rest rest' hab
  rw [append_assoc, append_assoc] at hab
  obtain ⟨hencode, hrest⟩ := append_stop_inj (hstop a) (hstop b) hab
  exact ⟨hinj hencode, hrest⟩

end Stop

theorem PrefixFree.measured {length : Nat → List β} (h : PrefixFree length) :
    PrefixFree (fun bs : List β => length bs.length ++ bs) := by
  intro bs cs rest rest' heq
  rw [append_assoc, append_assoc] at heq
  obtain ⟨hlength, hbytes⟩ := h _ _ _ _ heq
  exact append_inj hbytes hlength

theorem PrefixFree.words (h : PrefixFree encode) {as bs : List α} {rest rest' : List β}
    (hlength : as.length = bs.length)
    (heq : as.flatMap encode ++ rest = bs.flatMap encode ++ rest') : as = bs ∧ rest = rest' := by
  induction as generalizing bs with
  | nil =>
    obtain rfl := eq_nil_of_length_eq_zero hlength.symm
    exact ⟨rfl, heq⟩
  | cons a as ih =>
    cases bs with
    | nil => cases hlength
    | cons b bs =>
      rw [flatMap_cons, flatMap_cons, append_assoc, append_assoc] at heq
      obtain ⟨rfl, htail⟩ := h a b _ _ heq
      obtain ⟨rfl, hrest⟩ := ih (Nat.succ.inj hlength) htail
      exact ⟨rfl, hrest⟩

theorem PrefixFree.counted {count : Nat → List β} (hcount : PrefixFree count)
    (h : PrefixFree encode) : PrefixFree (fun as : List α => count as.length ++ as.flatMap encode) := by
  intro as bs rest rest' heq
  rw [append_assoc, append_assoc] at heq
  obtain ⟨hlength, hwords⟩ := hcount _ _ _ _ heq
  exact h.words hlength hwords

end PrefixCode
