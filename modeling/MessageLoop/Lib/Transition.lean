import Mathlib.Data.List.Induction

/-!
Runs of a guarded transition function.

A system is a partial function `step : σ → α → Option σ`: the label carries every choice of the
environment, and `none` means that the label is not enabled. A run is a list of labels, so runs
can be evaluated.
-/

namespace List

universe u
variable {α : Type u} {P : α → Prop} {l : List α} {b : α}

theorem forall_mem_snoc (h : ∀ a ∈ l, P a) (hb : P b) : ∀ a ∈ l ++ [b], P a :=
  forall_mem_append.mpr ⟨h, forall_mem_singleton.mpr hb⟩

theorem forall_mem_set {k : Nat} (h : ∀ a ∈ l, P a) (hb : P b) : ∀ a ∈ l.set k b, P a := by
  intro a ha
  rcases mem_or_eq_of_mem_set ha with ha | rfl
  · exact h a ha
  · exact hb

theorem getElem?_snoc (l : List α) (b : α) (i : Nat) :
    (l ++ [b])[i]? = if i = l.length then some b else l[i]? := by
  split_ifs with hi
  · rw [hi, getElem?_concat_length]
  · rcases Nat.lt_or_gt_of_ne hi with hlt | hgt
    · exact getElem?_append_left hlt
    · rw [getElem?_eq_none (by rw [length_append, length_singleton]; omega),
        getElem?_eq_none (Nat.le_of_lt hgt)]

end List

namespace Option

universe u v w
variable {α : Type u} {β : Type v} {γ : Type w} {o : Option α} {g : α → Option β} {f : α → β → γ}

theorem bind_map_eq_some {c : γ} (h : (o.bind fun a => (g a).map (f a)) = some c) :
    ∃ a b, o = some a ∧ g a = some b ∧ f a b = c := by
  obtain ⟨a, ha, h⟩ := bind_eq_some_iff.mp h
  obtain ⟨b, hb, rfl⟩ := map_eq_some_iff.mp h
  exact ⟨a, b, ha, hb, rfl⟩

end Option

namespace Transition

universe u v
variable {σ : Type u} {α : Type v} (step : σ → α → Option σ)

variable {as : List α} {s : σ}

def run : σ → List α → Option σ
  | s, [] => some s
  | s, a :: as => (step s a).bind fun t => run t as

/-- Every label of the run is taken in a state that satisfies `ok` together with the label. -/
def Along (ok : σ → α → Prop) : σ → List α → Prop
  | _, [] => True
  | s, a :: as => ok s a ∧ ∀ t, step s a = some t → Along ok t as

@[simp] theorem run_nil (s : σ) : run step s [] = some s := rfl

theorem run_cons_iff {u : σ} {a : α} :
    run step s (a :: as) = some u ↔ ∃ t, step s a = some t ∧ run step t as = some u := by
  simp [run, Option.bind_eq_some_iff]

theorem run_append (s : σ) (as bs : List α) :
    run step s (as ++ bs) = (run step s as).bind fun t => run step t bs := by
  induction as generalizing s with
  | nil => rfl
  | cons a as ih =>
    cases h : step s a with
    | none => simp [run, h]
    | some t => simpa [run, h] using ih t

theorem run_snoc_iff {u : σ} {a : α} :
    run step s (as ++ [a]) = some u ↔ ∃ t, run step s as = some t ∧ step t a = some u := by
  simp [run_append, run, Option.bind_eq_some_iff]

@[simp] theorem along_nil (ok : σ → α → Prop) (s : σ) : Along step ok s [] := trivial

theorem along_snoc_iff {ok : σ → α → Prop} {t : σ} {a : α} (hrun : run step s as = some t) :
    Along step ok s (as ++ [a]) ↔ Along step ok s as ∧ ok t a := by
  induction as generalizing s with
  | nil =>
    obtain rfl : s = t := by simpa using hrun
    simp [Along]
  | cons b bs ih =>
    obtain ⟨u, hu, hrest⟩ := (run_cons_iff step).mp hrun
    simp only [List.cons_append, Along, hu, Option.some.injEq, forall_eq', ih hrest, and_assoc]

theorem along_mono {weak strong : σ → α → Prop} (h : ∀ s a, strong s a → weak s a)
    (hal : Along step strong s as) : Along step weak s as := by
  induction as generalizing s with
  | nil => trivial
  | cons a as ih => exact ⟨h s a hal.1, fun t ht => ih (hal.2 t ht)⟩

theorem along_of_forall {ok : σ → α → Prop} (h : ∀ a ∈ as, ∀ s, ok s a) (s : σ) :
    Along step ok s as := by
  induction as generalizing s with
  | nil => trivial
  | cons a as ih =>
    refine ⟨h a List.mem_cons_self s, ?_⟩
    intro t _
    exact ih (fun b hb => h b (List.mem_cons_of_mem a hb)) t

theorem along_and {p q : σ → α → Prop} (hp : Along step p s as) (hq : Along step q s as) :
    Along step (fun t a => p t a ∧ q t a) s as := by
  induction as generalizing s with
  | nil => trivial
  | cons a as ih => exact ⟨⟨hp.1, hq.1⟩, fun t ht => ih (hp.2 t ht) (hq.2 t ht)⟩

instance decidableAlong (ok : σ → α → Prop) [∀ s a, Decidable (ok s a)] :
    (s : σ) → (as : List α) → Decidable (Along step ok s as)
  | _, [] => isTrue trivial
  | s, a :: as =>
    match h : step s a with
    | none => decidable_of_iff (ok s a) (by simp [Along, h])
    | some t =>
      have := decidableAlong ok t as
      decidable_of_iff (ok s a ∧ Along step ok t as) (by simp [Along, h])

section Rules
variable {step}
variable {init : σ} {P : σ → Prop} {ok : σ → α → Prop}

theorem run_induction {P : List α → σ → Prop} (start : P [] init)
    (next : ∀ as s a t, run step init as = some s → P as s → step s a = some t →
      P (as ++ [a]) t) :
    ∀ as s, run step init as = some s → P as s := by
  intro as
  induction as using List.reverseRecOn with
  | nil =>
    intro s hrun
    obtain rfl : init = s := by simpa using hrun
    exact start
  | append_singleton as a ih =>
    intro s hrun
    obtain ⟨t, ht, hstep⟩ := (run_snoc_iff step).mp hrun
    exact next as t a s ht (ih t ht) hstep

theorem invariant (start : P init) (next : ∀ s a t, P s → step s a = some t → P t)
    (hrun : run step init as = some s) : P s :=
  run_induction (P := fun _ s => P s) start (fun _ s a t _ hs => next s a t hs) as s hrun

theorem invariant_along (start : P init) (next : ∀ s a t, P s → ok s a → step s a = some t → P t)
    (hrun : run step init as = some s) (hok : Along step ok init as) : P s := by
  refine run_induction (P := fun as s => Along step ok init as → P s) (fun _ => start)
    ?_ as s hrun hok
  intro as s a t hs ih hstep hal
  rw [along_snoc_iff step hs] at hal
  exact next s a t (ih hal.1) hal.2 hstep

theorem along_of_invariant {good : σ → α → Prop}
    (next : ∀ s a t, P s → ok s a → step s a = some t → P t)
    (holds : ∀ s a, P s → ok s a → good s a) (start : P init) (hok : Along step ok init as) :
    Along step good init as := by
  induction as generalizing init with
  | nil => trivial
  | cons a as ih =>
    refine ⟨holds init a start hok.1, fun t ht => ?_⟩
    exact ih (next init a t start hok.1 ht) (hok.2 t ht)

theorem along_congr {p q : σ → α → Prop} (start : P init)
    (next : ∀ s a t, P s → step s a = some t → P t) (h : ∀ s a, P s → (p s a ↔ q s a))
    (as : List α) : Along step p init as ↔ Along step q init as := by
  induction as generalizing init with
  | nil => exact Iff.rfl
  | cons a as ih =>
    refine and_congr (h init a start) (forall_congr' fun t => forall_congr' fun ht => ?_)
    exact ih (next init a t start ht)

/-- A condition on steps that a predicate `Q` of the state records: along runs that keep an
invariant, all steps met the condition exactly when `Q` holds at the end. -/
theorem along_iff_recorded {Q : σ → Prop} (start : P init)
    (next : ∀ s a t, P s → step s a = some t → P t) (fresh : Q init)
    (record : ∀ s a t, P s → step s a = some t → (Q t ↔ Q s ∧ ok s a))
    (hrun : run step init as = some s) : Along step ok init as ↔ Q s := by
  refine (run_induction (P := fun as s => P s ∧ (Along step ok init as ↔ Q s))
    ⟨start, by simpa using fresh⟩ ?_ as s hrun).2
  intro as s a t hs ih hstep
  refine ⟨next s a t ih.1 hstep, ?_⟩
  rw [along_snoc_iff step hs, ih.2, record s a t ih.1 hstep]

/-- A condition on steps that is just what `Q` needs: with an invariant that `Q` is part of and that
the steps meeting the condition keep, `Q` holds all along a run exactly if every step meets it. -/
theorem always_iff_along {Q : σ → Prop} (weaken : ∀ s, P s → Q s)
    (next : ∀ s a t, P s → ok s a → step s a = some t → P t)
    (need : ∀ s a, P s → (∀ t, step s a = some t → Q t) → ok s a) (start : P init) :
    (∀ before after s, as = before ++ after → run step init before = some s → Q s) ↔
      Along step ok init as := by
  induction as generalizing init with
  | nil =>
    refine ⟨fun _ => trivial, fun _ before after s has hrun => ?_⟩
    obtain ⟨rfl, -⟩ := List.append_eq_nil_iff.mp has.symm
    obtain rfl : init = s := by simpa using hrun
    exact weaken init start
  | cons a as ih =>
    constructor
    · intro hall
      have hok : ok init a := need init a start fun t ht =>
        hall [a] as t rfl ((run_cons_iff step).mpr ⟨t, ht, rfl⟩)
      refine ⟨hok, fun t ht => (ih (next init a t start hok ht)).mp ?_⟩
      rintro before after s rfl hrun
      exact hall (a :: before) after s rfl ((run_cons_iff step).mpr ⟨t, ht, hrun⟩)
    · rintro ⟨hok, hrest⟩ before after s has hrun
      cases before with
      | nil =>
        obtain rfl : init = s := by simpa using hrun
        exact weaken init start
      | cons b before =>
        obtain ⟨rfl, htail⟩ := List.cons.inj has
        obtain ⟨t, ht, hrun⟩ := (run_cons_iff step).mp hrun
        exact (ih (next init a t start hok ht)).mpr (hrest t ht) before after s htail hrun

end Rules

end Transition
