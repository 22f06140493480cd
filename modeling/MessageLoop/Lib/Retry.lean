import Mathlib.Order.Basic

/-!
Loops that repeat an attempt until it succeeds.

A failed attempt leaves a state for the next one. Where every failure either lowers a measure or
happens in a stuck state, which no attempt leaves, the loop ends exactly in the states that are not
stuck.
-/

namespace Retry

universe u v
variable {σ : Type u} {ρ : Type v}

def loop (attempt : σ → Except σ ρ) : Nat → σ → Option ρ
  | 0, _ => none
  | n + 1, s =>
    match attempt s with
    | .ok r => some r
    | .error t => loop attempt n t

section
variable {attempt : σ → Except σ ρ} {good : σ → Prop}
variable (hgood : ∀ s t, good s → attempt s = .error t → good t)
include hgood

theorem loop_invariant {done : ρ → Prop} (hdone : ∀ s r, good s → attempt s = .ok r → done r)
    {n : Nat} {s : σ} {r : ρ} (hs : good s) (h : loop attempt n s = some r) : done r := by
  induction n generalizing s with
  | zero => cases h
  | succ n ih =>
    rw [loop] at h
    cases hattempt : attempt s with
    | ok r' =>
      rw [hattempt] at h
      obtain rfl := Option.some.inj h
      exact hdone s r' hs hattempt
    | error t =>
      rw [hattempt] at h
      exact ih (hgood s t hs hattempt) h

variable {stuck : σ → Prop} {measure : σ → Nat}

theorem loop_of_stuck (hstuck : ∀ s, good s → stuck s → ∃ t, attempt s = .error t ∧ stuck t)
    (n : Nat) {s : σ} (hs : good s) (h : stuck s) : loop attempt n s = none := by
  induction n generalizing s with
  | zero => rfl
  | succ n ih =>
    obtain ⟨t, ht, hstuck'⟩ := hstuck s hs h
    rw [loop, ht]
    exact ih (hgood s t hs ht) hstuck'

theorem loop_ends (hfails : ∀ s t, good s → ¬stuck s → attempt s = .error t →
      ¬stuck t ∧ measure t < measure s) {s : σ} (hs : good s) (h : ¬stuck s) :
    ∃ n, loop attempt n s ≠ none := by
  generalize hm : measure s = m
  induction m using Nat.strongRecOn generalizing s with
  | ind m ih =>
    cases hattempt : attempt s with
    | ok r => exact ⟨1, by simp [loop, hattempt]⟩
    | error t =>
      obtain ⟨ht, hlt⟩ := hfails s t hs h hattempt
      obtain ⟨n, hn⟩ := ih (measure t) (hm ▸ hlt) (hgood s t hs hattempt) ht rfl
      exact ⟨n + 1, by simpa [loop, hattempt] using hn⟩

theorem ends_iff (hstuck : ∀ s, good s → stuck s → ∃ t, attempt s = .error t ∧ stuck t)
    (hfails : ∀ s t, good s → ¬stuck s → attempt s = .error t → ¬stuck t ∧ measure t < measure s)
    {s : σ} (hs : good s) : (∃ n, loop attempt n s ≠ none) ↔ ¬stuck s := by
  constructor
  · rintro ⟨n, hn⟩ h
    exact hn (loop_of_stuck hgood hstuck n hs h)
  · exact loop_ends hgood hfails hs

end

end Retry
