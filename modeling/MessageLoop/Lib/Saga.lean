import Mathlib.Tactic.Common

/-!
Sagas: a list of steps that each know how to commit and how to undo themselves. The first step
that fails to commit makes the executed ones roll back in reverse order.
-/

namespace Saga

universe u v w
variable {σ : Type u} {ν : Type v} {ε : Type w}

structure Step (σ : Type u) (ν : Type v) (ε : Type w) where
  name : ν
  commit : σ → Except ε σ
  rollback : σ → σ

def undo (executed : List (Step σ ν ε)) (s : σ) : σ :=
  executed.foldl (fun s step => step.rollback s) s

def resume (executed : List (Step σ ν ε)) : List (Step σ ν ε) → σ → σ × Option (ν × ε)
  | [], s => (s, none)
  | step :: rest, s =>
    match step.commit s with
    | .ok t => resume (step :: executed) rest t
    | .error e => (undo executed s, some (step.name, e))

def run (steps : List (Step σ ν ε)) (s : σ) : σ × Option (ν × ε) :=
  resume [] steps s

@[simp] theorem undo_nil (s : σ) : undo ([] : List (Step σ ν ε)) s = s := rfl

@[simp] theorem undo_cons (step : Step σ ν ε) (executed : List (Step σ ν ε)) (s : σ) :
    undo (step :: executed) s = undo executed (step.rollback s) := rfl

@[simp] theorem resume_nil (executed : List (Step σ ν ε)) (s : σ) :
    resume executed [] s = (s, none) := rfl

variable {steps executed rest : List (Step σ ν ε)} {s : σ} {step : Step σ ν ε}

theorem resume_ok {t : σ} (h : step.commit s = .ok t) :
    resume executed (step :: rest) s = resume (step :: executed) rest t := by
  simp [resume, h]

theorem resume_error {e : ε} (h : step.commit s = .error e) :
    resume executed (step :: rest) s = (undo executed s, some (step.name, e)) := by
  simp [resume, h]

section Stages
variable {stage : Nat → σ → Prop} {all : List (Step σ ν ε)}

theorem undo_staged (hall : executed.reverse <+: all)
    (hrollback : ∀ (i : Nat) step, all[i]? = some step → ∀ s, stage (i + 1) s →
      stage i (step.rollback s)) (hs : stage executed.length s) : stage 0 (undo executed s) := by
  induction executed generalizing s with
  | nil => exact hs
  | cons step executed ih =>
    rw [List.reverse_cons] at hall
    refine ih ((List.prefix_append _ _).trans hall) ?_
    refine hrollback executed.length step ?_ s hs
    obtain ⟨rest, rfl⟩ := hall
    simp

theorem resume_staged (hall : executed.reverse ++ steps = all)
    (hcommit : ∀ (i : Nat) step, all[i]? = some step → ∀ s t, stage i s → step.commit s = .ok t →
      stage (i + 1) t)
    (hrollback : ∀ (i : Nat) step, all[i]? = some step → ∀ s, stage (i + 1) s →
      stage i (step.rollback s)) (hs : stage executed.length s) :
    stage (if (resume executed steps s).2.isSome then 0 else all.length)
      (resume executed steps s).1 := by
  induction steps generalizing executed s with
  | nil =>
    rw [List.append_nil] at hall
    subst hall
    simpa using hs
  | cons step steps ih =>
    have hstep : all[executed.length]? = some step := by
      subst hall
      simp
    cases h : step.commit s with
    | ok t =>
      rw [resume_ok h]
      exact ih (by simpa using hall) (hcommit executed.length step hstep s t hs h)
    | error e =>
      rw [resume_error h]
      exact undo_staged ⟨step :: steps, hall⟩ hrollback hs

/-- Where every commit takes a saga one stage further and every rollback one stage back, a saga
ends behind its last step or where it began. -/
theorem run_staged
    (hcommit : ∀ (i : Nat) step, steps[i]? = some step → ∀ s t, stage i s →
      step.commit s = .ok t → stage (i + 1) t)
    (hrollback : ∀ (i : Nat) step, steps[i]? = some step → ∀ s, stage (i + 1) s →
      stage i (step.rollback s)) (hs : stage 0 s) :
    stage (if (run steps s).2.isSome then 0 else steps.length) (run steps s).1 :=
  resume_staged rfl hcommit hrollback hs

theorem run_invariant {P : σ → Prop}
    (hcommit : ∀ step ∈ steps, ∀ s t, P s → step.commit s = .ok t → P t)
    (hrollback : ∀ step ∈ steps, ∀ s, P s → P (step.rollback s)) (hs : P s) :
    P (run steps s).1 :=
  @run_staged _ _ _ _ _ (fun _ => P) (fun _ step hi => hcommit step (List.mem_of_getElem? hi))
    (fun _ step hi => hrollback step (List.mem_of_getElem? hi)) hs

end Stages

end Saga
