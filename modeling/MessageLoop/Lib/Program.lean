import Mathlib.Init

/-!
Programs that call an environment.

A program is a tree: it returns, or it calls an operation and goes on with the answer. `run` is what
it does in an environment with a state, `wp` what it may do whatever the answers are; a condition on
a call may refer to the calls before it and their answers. Two environments that agree on the calls
of a run give the same run.
-/

universe u v w

inductive Program {ι : Type u} (β : ι → Type v) (α : Type v) : Type (max u v) where
  | pure (a : α)
  | call (op : ι) (next : β op → Program β α)

namespace Program

variable {ι : Type u} {β : ι → Type v} {α γ δ : Type v} {σ : Type w}

def bind (p : Program β α) (f : α → Program β γ) : Program β γ :=
  match p with
  | .pure a => f a
  | .call op next => .call op fun answer => (next answer).bind f

instance : Monad (Program β) where
  pure := .pure
  bind := bind

def perform (op : ι) : Program β (β op) :=
  .call op .pure

abbrev Event (β : ι → Type v) := (op : ι) × β op

section Run
variable (env : (op : ι) → σ → β op × σ)

def run : Program β α → σ → α × σ
  | .pure a, s => (a, s)
  | .call op next, s => (next (env op s).1).run (env op s).2

/-- Every call of the run meets the condition. -/
def Along (ok : List (Event β) → σ → ι → Prop) : Program β α → List (Event β) → σ → Prop
  | .pure _, _, _ => True
  | .call op next, past, s =>
    ok past s op ∧ (next (env op s).1).Along ok (past ++ [⟨op, (env op s).1⟩]) (env op s).2

instance decidableAlong {ok : List (Event β) → σ → ι → Prop}
    [∀ past s op, Decidable (ok past s op)] :
    (p : Program β α) → (past : List (Event β)) → (s : σ) → Decidable (p.Along env ok past s)
  | .pure _, _, _ => inferInstanceAs (Decidable True)
  | .call op next, past, s =>
    @instDecidableAnd _ _ inferInstance
      (decidableAlong (next (env op s).1) (past ++ [⟨op, (env op s).1⟩]) (env op s).2)

end Run

section Spec
variable {ok : List (Event β) → ι → Prop} {past : List (Event β)} {p : Program β α}

def wp (ok : List (Event β) → ι → Prop) :
    Program β α → (List (Event β) → α → Prop) → List (Event β) → Prop
  | .pure a, Q, past => Q past a
  | .call op next, Q, past => ok past op ∧ ∀ answer, (next answer).wp ok Q (past ++ [⟨op, answer⟩])

@[simp] theorem wp_pure {a : α} {Q : List (Event β) → α → Prop} :
    (Pure.pure a : Program β α).wp ok Q past ↔ Q past a :=
  Iff.rfl

@[simp] theorem wp_perform {op : ι} {Q : List (Event β) → β op → Prop} :
    (perform op : Program β (β op)).wp ok Q past ↔
      ok past op ∧ ∀ answer, Q (past ++ [⟨op, answer⟩]) answer :=
  Iff.rfl

@[simp] theorem wp_bind {f : α → Program β γ} {Q : List (Event β) → γ → Prop} :
    (p >>= f).wp ok Q past ↔ p.wp ok (fun later a => (f a).wp ok Q later) past := by
  induction p generalizing past with
  | pure a => exact Iff.rfl
  | call op next ih => exact and_congr_right fun _ => forall_congr' fun answer => ih answer

theorem wp_mono {Q R : List (Event β) → α → Prop} (h : p.wp ok Q past)
    (himp : ∀ later a, past ⊆ later → Q later a → R later a) : p.wp ok R past := by
  induction p generalizing past with
  | pure a => exact himp past a (List.Subset.refl past) h
  | call op next ih =>
    refine ⟨h.1, fun answer => ih answer (h.2 answer) fun later a hsub => himp later a ?_⟩
    exact List.Subset.trans (List.subset_append_left past _) hsub

theorem wp_foldlM {f : γ → δ → Program β γ} {l : List δ} {I : List (Event β) → γ → Prop}
    (hstep : ∀ past c, ∀ d ∈ l, I past c → (f c d).wp ok I past) {c : γ} (hc : I past c) :
    (l.foldlM f c).wp ok I past := by
  induction l generalizing past c with
  | nil => exact hc
  | cons d l ih =>
    rw [List.foldlM_cons, wp_bind]
    refine wp_mono (hstep past c d List.mem_cons_self hc) fun later c' _ hc' => ?_
    exact ih (fun past c d hd => hstep past c d (List.mem_cons_of_mem _ hd)) hc'

/-- The environments agree on the calls that the program may make and that meet the condition of
the run, and these calls keep the invariant of the state. -/
theorem run_agree {env₁ env₂ : (op : ι) → σ → β op × σ} {P : σ → Prop}
    {along : List (Event β) → σ → ι → Prop}
    (hstep : ∀ past s op, P s → ok past op → along past s op →
      env₁ op s = env₂ op s ∧ P (env₁ op s).2)
    {Q : List (Event β) → α → Prop} (hwp : p.wp ok Q past) {s : σ}
    (halong : p.Along env₁ along past s) (hs : P s) :
    p.run env₁ s = p.run env₂ s ∧ P (p.run env₁ s).2 := by
  induction p generalizing past s with
  | pure a => exact ⟨rfl, hs⟩
  | call op next ih =>
    obtain ⟨hsame, hkept⟩ := hstep past s op hs hwp.1 halong.1
    have hrest := ih (env₁ op s).1 (hwp.2 _) halong.2 hkept
    refine ⟨?_, hrest.2⟩
    rw [run, hrest.1, run, hsame]

end Spec

end Program
