import MessageLoop.Lib.Weight
import MessageLoop.Runtime.Batcher

/-! Conservation of the batcher: every interleaving keeps account of what `Deliver` was given, and
loses a publication exactly when one is buffered between the idle check and the close of a reap. -/

namespace MessageLoop.Batcher

open List Option Function Accumulator State

variable {β : Type} {s t : State β} {i k : Nat} {c : Call β} {oc nc : Option (Call β)}
variable {oa na : Option (Accumulator β)} {out : List (String × Publication β)}

def Progress.acc : Progress → Option Nat
  | .immediate => none
  | .draining i | .waiting i | .appending i | .notifying i => some i

def Call.held (c : Call β) : List (String × Publication β) :=
  match c.progress with
  | .notifying _ => []
  | _ => [(c.ch, c.pub)]

def Accumulator.batch (a : Accumulator β) : List (Publication β) :=
  match a.flusher with
  | .broadcasting batch => batch
  | _ => []

def Accumulator.kept (a : Accumulator β) : List (String × Publication β) :=
  (a.buf ++ a.batch).map (a.ch, ·)

/-- The flusher has decided to reap: it never looks at the buffer again. -/
def Accumulator.reaped (a : Accumulator β) : Bool :=
  match a.flusher with
  | .reaping | .removing | .stopped => true
  | _ => false

def Accumulator.stranded (a : Accumulator β) : Nat :=
  if a.reaped then a.buf.length else 0

/-- `closed` and `inFlight` as the position of the flusher determines them. -/
structure Accumulator.Sane (a : Accumulator β) : Prop where
  closed : a.closed = true ↔ a.flusher = .removing ∨ a.flusher = .stopped
  inFlight : a.inFlight =
    match a.flusher with
    | .broadcasting _ | .returning => 1
    | _ => 0

open Accumulator

def Call.rank (c : Call β) : Nat :=
  match c.progress with
  | .immediate => 1
  | .waiting _ => 2
  | .notifying _ => 9
  | .draining _ => 11
  | .appending _ => 30

def Accumulator.rank (a : Accumulator β) : Nat :=
  20 * a.buf.length + 8 * a.notify.toNat + 8 * a.flushNow.toNat +
    match a.flusher with
    | .stopped => 0
    | .removing => 1
    | .reaping => 2
    | .timer => 3
    | .select => 4
    | .rearm => 5
    | .returning => 6
    | .threshold => 7
    | .broadcasting _ => 8
    | .flush => if a.buf = [] then 6 else 2

section Moves

/-- What one step does to the call and the accumulator it concerns (before and after), and what it
hands over. -/
inductive Move : Option (Call β) → Option (Accumulator β) → Option (Call β) →
    Option (Accumulator β) → List (String × Publication β) → Prop where
  | immediate (c : Call β) (h : c.progress = .immediate) :
      Move (some c) none none none [(c.ch, c.pub)]
  | drain (c : Call β) (a : Accumulator β) (i : Nat) (h : c.progress = .draining i) :
      Move (some c) (some a) (some { c with progress := .waiting i })
        (some { a with flushNow := true }) []
  | wake (c : Call β) (i : Nat) (h : c.progress = .waiting i) :
      Move (some c) none (some { c with progress := .immediate }) none []
  | divert (c : Call β) (i : Nat) (h : c.progress = .appending i) :
      Move (some c) none (some { c with progress := .immediate }) none []
  | buffer (c : Call β) (a : Accumulator β) (c' : Option (Call β)) (i : Nat)
      (h : c.progress = .appending i) (hch : a.ch = c.ch)
      (hc' : c' = none ∨ c' = some { c with progress := .notifying i }) :
      Move (some c) (some a) c' (some (a.push c.pub)) []
  | notify (c : Call β) (a : Accumulator β) (i : Nat) (h : c.progress = .notifying i) :
      Move (some c) (some a) none (some { a with notify := true }) []
  | reached (a : Accumulator β) (h : a.flusher = .threshold) :
      Move none (some a) none (some { a with flusher := .flush }) []
  | below (a : Accumulator β) (h : a.flusher = .threshold) :
      Move none (some a) none (some { a with flusher := .rearm }) []
  | idle (a : Accumulator β) (h : a.flusher = .timer) (hbuf : a.buf = []) :
      Move none (some a) none (some { a with flusher := .reaping }) []
  | window (a : Accumulator β) (h : a.flusher = .timer) (hbuf : a.buf ≠ []) :
      Move none (some a) none (some { a with flusher := .flush }) []
  | nothing (a : Accumulator β) (h : a.flusher = .flush) (hbuf : a.buf = []) :
      Move none (some a) none (some { a with flusher := .rearm }) []
  | swap (a : Accumulator β) (h : a.flusher = .flush) (hbuf : a.buf ≠ []) :
      Move none (some a) none (some { a with
        buf := [], bytes := 0, inFlight := a.inFlight + 1, flusher := .broadcasting a.buf }) []
  | broadcast (a : Accumulator β) (batch : List (Publication β))
      (h : a.flusher = .broadcasting batch) :
      Move none (some a) none (some { a with flusher := .returning }) (batch.map (a.ch, ·))
  | returned (a : Accumulator β) (h : a.flusher = .returning) :
      Move none (some a) none
        (some { a with inFlight := a.inFlight - 1, flusher := .rearm }) []
  | rearm (a : Accumulator β) (h : a.flusher = .rearm) :
      Move none (some a) none (some { a with flusher := .select }) []
  | close (a : Accumulator β) (h : a.flusher = .reaping) :
      Move none (some a) none (some { a with closed := true, flusher := .removing }) []
  | remove (a : Accumulator β) (h : a.flusher = .removing) :
      Move none (some a) none (some { a with flusher := .stopped }) []
  | flushNow (a : Accumulator β) (h : a.flusher = .select) (hsig : a.flushNow = true) :
      Move none (some a) none (some { a with flushNow := false, flusher := .flush }) []
  | notified (a : Accumulator β) (h : a.flusher = .select) (hsig : a.notify = true) :
      Move none (some a) none (some { a with notify := false, flusher := .threshold }) []
  | timer (a : Accumulator β) (h : a.flusher = .select) :
      Move none (some a) none (some { a with flusher := .timer }) []

theorem Move.decreases (h : Move oc oa nc na out) :
    nc.elim 0 Call.rank + na.elim 0 rank <
      oc.elim 0 Call.rank + oa.elim 0 rank := by
  cases h with
  | immediate c h | wake c i h | divert c i h => simp [Call.rank, h]
  | drain c a i h =>
    simp only [elim_some, Call.rank, rank, h, Bool.toNat_true]
    omega
  | notify c a i h =>
    simp only [elim_some, elim_none, Call.rank, rank, h,
      Bool.toNat_true]
    omega
  | buffer c a c' i h hch hc' =>
    -- Only a flusher about to swap sees the buffer, and a longer one lowers its rank.
    have hflusher : (a.push c.pub).rank ≤ a.rank + 20 := by
      simp only [rank, push, length_append, length_singleton]
      cases a.flusher with
      | flush =>
        by_cases hbuf : a.buf = []
        · simp [hbuf]
          omega
        · simp [hbuf]
          omega
      | _ => dsimp only; omega
    have hcall : nc.elim 0 Call.rank ≤ 9 := by
      rcases hc' with rfl | rfl <;> simp [Call.rank]
    simp only [elim_some, Call.rank, h]
    omega
  | reached a h =>
    simp only [elim_some, elim_none, rank, h]
    split <;> omega
  | below a h | idle a h hbuf | broadcast a batch h | returned a h | rearm a h | close a h
  | remove a h | timer a h => simp [rank, h]
  | window a h hbuf | nothing a h hbuf => simp [rank, h, hbuf]
  | swap a h hbuf =>
    have := length_pos_of_ne_nil hbuf
    simp only [elim_some, elim_none, rank, h, if_neg hbuf,
      length_nil]
    omega
  | flushNow a h hsig =>
    simp only [elim_some, elim_none, rank, h, hsig, Bool.toNat_true,
      Bool.toNat_false]
    split <;> omega
  | notified a h hsig => simp [rank, h, hsig]; omega

theorem Move.conserves (h : Move oc oa nc na out) : (oc.elim [] Call.held ++ oa.elim [] kept).Perm
      (nc.elim [] Call.held ++ na.elim [] kept ++ out) := by
  cases h with
  | immediate c h | wake c i h | divert c i h => simp [Call.held, h]
  | drain c a i h | notify c a i h => simp [Call.held, h, kept, batch]
  | buffer c a c' i h hch hc' =>
    have hcall : nc.elim [] Call.held = [] := by
      rcases hc' with rfl | rfl <;> simp [Call.held]
    have hheld : c.held = [(c.ch, c.pub)] := by simp [Call.held, h]
    have hkept : (a.push c.pub).kept =
        a.buf.map (a.ch, ·) ++ (a.ch, c.pub) :: a.batch.map (a.ch, ·) := by
      simp [kept, batch, push]
    simp only [elim_some]
    rw [hcall, hheld, hkept, kept, map_append, hch, append_nil,
      nil_append, singleton_append]
    exact perm_middle.symm
  | swap a h hbuf | broadcast a batch h => simp [kept, Accumulator.batch, h]
  | reached a h | below a h | idle a h | window a h | nothing a h | returned a h | rearm a h | close a h
  | remove a h | flushNow a h | notified a h | timer a h => simp [kept, batch, h]

theorem Move.sane (h : Move oc oa nc na out) :
    ∀ a ∈ oa, a.Sane → ∀ a' ∈ na, a'.ch = a.ch ∧ a'.Sane := by
  rintro a ha ⟨hclosed, hinFlight⟩ a' ha'
  cases h with
  | immediate | wake | divert => cases ha
  | drain | notify | buffer =>
    cases ha
    cases ha'
    exact ⟨rfl, hclosed, hinFlight⟩
  | reached _ h | below _ h | idle _ h | window _ h | nothing _ h | swap _ h | broadcast _ _ h
  | returned _ h | rearm _ h | close _ h | remove _ h | flushNow _ h | notified _ h | timer _ h =>
    cases ha
    cases ha'
    simp only [h] at hclosed hinFlight
    exact ⟨rfl, by simp_all, by simp_all⟩

theorem stranded_push (a : Accumulator β) (pub : Publication β) :
    (a.push pub).stranded = a.stranded + if a.reaped then 1 else 0 := by
  have hreaped : (a.push pub).reaped = a.reaped := rfl
  unfold stranded
  rw [hreaped]
  cases a.reaped <;> simp [push]

theorem Move.stranded_le (h : Move oc oa nc na out) :
    oa.elim 0 stranded ≤ na.elim 0 stranded := by
  cases h with
  | buffer c a c' i h =>
    simp [stranded_push]
  | immediate | wake | divert | drain | notify => exact Nat.le_refl _
  | reached a h | below a h | idle a h | window a h | nothing a h | swap a h | broadcast a _ h
  | returned a h | rearm a h | close a h | remove a h | flushNow a h | notified a h | timer a h =>
    simp [stranded, reaped, h]

end Moves

section Weights

def weigh (fc : Call β → Nat) (fa : Accumulator β → Nat) (s : State β) : Nat :=
  (s.calls.map fc).sum + ∑ i ∈ Finset.range s.created, fa (s.pool i)

variable (fc : Call β → Nat) (fa : Accumulator β → Nat)

theorem weigh_setAcc (hi : i < s.created) (a : Accumulator β) :
    weigh fc fa (s.setAcc i a) + fa (s.pool i) = weigh fc fa s + fa a := by
  have := Weight.sum_update fa (Finset.mem_range.mpr hi) s.pool a
  simp only [weigh, setAcc]
  omega

section
variable (hc : s.calls[k]? = some c)
include hc

theorem weigh_setCall (p : Progress) :
    weigh fc fa (s.setCall k c p) + fc c = weigh fc fa s + fc { c with progress := p } := by
  have := Weight.sum_map_set fc { c with progress := p } hc
  simp only [weigh, setCall]
  omega

theorem weigh_dropCall : weigh fc fa (s.dropCall k) + fc c = weigh fc fa s := by
  have := Weight.sum_map_eraseIdx fc hc
  simp only [weigh, dropCall]
  omega

theorem weigh_setAcc_setCall (hi : i < s.created) (a : Accumulator β) (p : Progress) :
    weigh fc fa ((s.setAcc i a).setCall k c p) + fc c + fa (s.pool i) =
      weigh fc fa s + fc { c with progress := p } + fa a := by
  have hacc := weigh_setAcc fc fa hi a
  have hcall := weigh_setCall (s := s.setAcc i a) fc fa hc p
  omega

theorem weigh_setAcc_dropCall (hi : i < s.created) (a : Accumulator β) :
    weigh fc fa ((s.setAcc i a).dropCall k) + fc c + fa (s.pool i) =
      weigh fc fa s + fa a := by
  have hacc := weigh_setAcc fc fa hi a
  have hcall := weigh_dropCall (s := s.setAcc i a) fc fa hc
  omega

end

theorem weigh_addCall (ch : String) (pub : Publication β) (p : Progress) :
    weigh fc fa (s.addCall ch pub p) = weigh fc fa s + fc ⟨ch, pub, p⟩ := by
  simp only [weigh, addCall, map_append, map_cons, map_nil,
    sum_append, sum_cons, sum_nil]
  omega

end Weights

section Wellformed

structure Wf (s : State β) : Prop where
  registered : ∀ ch i, s.accs ch = some i → i < s.created ∧ (s.pool i).ch = ch
  targets : ∀ c ∈ s.calls, ∀ i, c.progress.acc = some i → i < s.created ∧ (s.pool i).ch = c.ch
  sane : ∀ i < s.created, (s.pool i).Sane

theorem wf_start (settings : Settings) : Wf (start settings : State β) :=
  ⟨nofun, nofun, nofun⟩

theorem Wf.setAcc (h : Wf s) {a : Accumulator β} (hch : a.ch = (s.pool i).ch) (ha : a.Sane) :
    Wf (s.setAcc i a) := by
  have hsame : ∀ j, (update s.pool i a j).ch = (s.pool j).ch := by
    intro j
    by_cases hj : j = i
    · subst hj
      simpa using hch
    · simp [hj]
  refine ⟨fun ch j hj => ?_, fun c hc j hj => ?_, fun j hj => ?_⟩
  · exact ⟨(h.registered ch j hj).1, (hsame j).trans (h.registered ch j hj).2⟩
  · exact ⟨(h.targets c hc j hj).1, (hsame j).trans (h.targets c hc j hj).2⟩
  · by_cases hji : j = i
    · subst hji
      simpa [setAcc] using ha
    · simpa [State.setAcc, hji] using h.sane j hj

theorem Wf.setCall (h : Wf s) (hc : c ∈ s.calls) {p : Progress}
    (hp : p.acc = none ∨ p.acc = c.progress.acc) : Wf (s.setCall k c p) := by
  refine { h with targets := forall_mem_set h.targets fun j hj => ?_ }
  rcases hp with hp | hp
  · simp [hp] at hj
  · exact h.targets c hc j (hp ▸ hj)

theorem Wf.dropCall (h : Wf s) (k : Nat) : Wf (s.dropCall k) :=
  { h with targets := fun c hc => h.targets c (mem_of_mem_eraseIdx hc) }

theorem Wf.addCall (h : Wf s) {ch : String} {pub : Publication β} {p : Progress}
    (hp : ∀ i, p.acc = some i → i < s.created ∧ (s.pool i).ch = ch) :
    Wf (s.addCall ch pub p) :=
  { h with targets := forall_mem_snoc h.targets hp }

end Wellformed

section Steps

/-- No publication is buffered between the idle check and the close of a reap. -/
def AppendsOutsideReap (s : State β) : Action β → Prop
  | .proceed k => ∀ c, s.calls[k]? = some c → ∀ i, c.progress = .appending i →
      (s.pool i).flusher ≠ .reaping
  | _ => True

def Action.Internal : Action β → Prop
  | .deliver .. => False
  | _ => True

structure Moved (s t : State β) (oc nc : Option (Call β)) (oa na : Option (Accumulator β))
    (out : List (String × Publication β)) : Prop where
  move : Move oc oa nc na out
  wf : Wf t
  passed : t.passed = s.passed
  handed : t.handed = s.handed ++ out
  weighs : ∀ fc fa, weigh fc fa t + oc.elim 0 fc + oa.elim 0 fa =
    weigh fc fa s + nc.elim 0 fc + na.elim 0 fa

theorem flusher_moved (hw : Wf s) (hi : i < s.created) {a : Accumulator β}
    (hmove : Move none (some (s.pool i)) none (some a) out) :
    Moved s { s.setAcc i a with handed := s.handed ++ out } none none (some (s.pool i)) (some a)
      out := by
  obtain ⟨hch, hsane⟩ := hmove.sane _ rfl (hw.sane i hi) _ rfl
  refine ⟨hmove, { hw.setAcc hch hsane with }, rfl, rfl, fun fc fa => ?_⟩
  have := weigh_setAcc fc fa hi a
  simpa [weigh] using this

def FlusherMoves (s : State β) (i : Nat) (t : State β) : Prop :=
  ∃ a out, Move none (some (s.pool i)) none (some a) out ∧
    (t = { s.setAcc i a with handed := s.handed ++ out } ∨
      a.reaped = true ∧ s.accs a.ch = some i ∧
        t = { s.setAcc i a with
          handed := s.handed ++ out
          accs := update s.accs a.ch none })

theorem flusherStep_eq_some (h : flusherStep s i = some t) : FlusherMoves s i t := by
  have hdone {a : Accumulator β} (hmove : Move none (some (s.pool i)) none (some a) [])
      (ht : some (s.setAcc i a) = some t) : FlusherMoves s i t := by
    cases ht
    refine ⟨a, [], hmove, .inl ?_⟩
    rw [append_nil]
    rfl
  unfold flusherStep at h
  dsimp only at h
  split at h
  · cases h
  next hf =>
    split at h
    · exact hdone (.reached _ hf) h
    · exact hdone (.below _ hf) h
  next hf =>
    split at h
    next hbuf => exact hdone (.idle _ hf hbuf) h
    next hbuf => exact hdone (.window _ hf hbuf) h
  next hf =>
    split at h
    next hbuf => exact hdone (.nothing _ hf hbuf) h
    next hbuf => exact hdone (.swap _ hf hbuf) h
  next batch hf => exact ⟨_, _, .broadcast _ batch hf, .inl (some.inj h).symm⟩
  next hf => exact hdone (.returned _ hf) h
  next hf => exact hdone (.rearm _ hf) h
  next hf => exact hdone (.close _ hf) h
  next hf =>
    by_cases hregistered : s.accs (s.pool i).ch = some i
    · rw [if_pos hregistered] at h
      refine ⟨_, [], .remove _ hf, .inr ⟨rfl, hregistered, ?_⟩⟩
      rw [append_nil]
      exact (some.inj h).symm
    · rw [if_neg hregistered] at h
      exact hdone (.remove _ hf) h
  · cases h

theorem flusherStep_moved (hw : Wf s) (hi : i < s.created) (h : flusherStep s i = some t) :
    ∃ a out, Moved s t none none (some (s.pool i)) (some a) out := by
  obtain ⟨a, out, hmove, rfl | ⟨-, -, rfl⟩⟩ := flusherStep_eq_some h
  · exact ⟨a, out, flusher_moved hw hi hmove⟩
  · have hmoved := flusher_moved hw hi hmove
    refine ⟨a, out, { hmoved with wf := { hmoved.wf with registered := fun ch j hj => ?_ } }⟩
    refine hmoved.wf.registered ch j ?_
    by_cases hch : ch = a.ch
    · subst hch
      simp at hj
    · simpa [hch, setAcc] using hj

theorem reaped_iff {a : Accumulator β} (h : a.Sane) (hopen : a.closed = false) :
    a.reaped = true ↔ a.flusher = .reaping := by
  have hclosed := h.closed
  rw [hopen] at hclosed
  cases hf : a.flusher <;> simp_all [reaped]

/-- What one step of a `Deliver` call does; an append to a full buffer is not a step. -/
inductive Proceeds (s : State β) (k : Nat) (c : Call β) : State β → Prop where
  | immediate (h : c.progress = .immediate) :
      Proceeds s k c { s.dropCall k with handed := s.handed ++ [(c.ch, c.pub)] }
  | drain (i : Nat) (h : c.progress = .draining i) :
      Proceeds s k c ((s.setAcc i { s.pool i with flushNow := true }).setCall k c (.waiting i))
  | wake (i : Nat) (h : c.progress = .waiting i)
      (hdrained : (s.pool i).closed = true ∨ (s.pool i).buf = [] ∧ (s.pool i).inFlight = 0) :
      Proceeds s k c (s.setCall k c .immediate)
  | divert (i : Nat) (h : c.progress = .appending i) (hclosed : (s.pool i).closed = true) :
      Proceeds s k c (s.setCall k c .immediate)
  | buffer (i : Nat) (h : c.progress = .appending i) (hopen : ¬ (s.pool i).closed = true) :
      Proceeds s k c ((s.setAcc i ((s.pool i).push c.pub)).setCall k c (.notifying i))
  | append (i : Nat) (h : c.progress = .appending i) (hopen : ¬ (s.pool i).closed = true) :
      Proceeds s k c ((s.setAcc i ((s.pool i).push c.pub)).dropCall k)
  | notify (i : Nat) (h : c.progress = .notifying i) :
      Proceeds s k c ((s.setAcc i { s.pool i with notify := true }).dropCall k)

theorem proceeds_of_proceed (h : proceed s k c = some t) : Proceeds s k c t := by
  unfold proceed at h
  split at h
  next hp =>
    cases h
    exact .immediate hp
  next hp =>
    cases h
    exact .drain _ hp
  next hp =>
    dsimp only at h
    split_ifs at h with hdrained
    cases h
    exact .wake _ hp hdrained
  next hp =>
    unfold append at h
    dsimp only at h
    split_ifs at h with hclosed hfull hnotify
    · cases h
      exact .divert _ hp hclosed
    · cases h
      exact .buffer _ hp hclosed
    · cases h
      exact .append _ hp hclosed
  next hp =>
    cases h
    exact .notify _ hp

theorem stranded_push_eq_iff {a : Accumulator β} (h : a.Sane) (hopen : ¬ a.closed = true)
    (pub : Publication β) : a.flusher ≠ .reaping ↔ (a.push pub).stranded = a.stranded := by
  rw [stranded_push, ne_eq, ← reaped_iff h (by simpa using hopen)]
  cases a.reaped <;> simp

theorem proceeds_moved (hw : Wf s) (hc : s.calls[k]? = some c) (h : Proceeds s k c t) :
    ∃ nc oa na out, Moved s t (some c) nc oa na out ∧
      ((∀ i, c.progress = .appending i → (s.pool i).flusher ≠ .reaping) ↔
        na.elim 0 stranded = oa.elim 0 stranded) := by
  have hmem : c ∈ s.calls := mem_of_getElem? hc
  have htarget {i : Nat} (hi : c.progress.acc = some i) := hw.targets c hmem i hi
  -- the accumulator is as sane as before, and of the same channel
  have hset {i : Nat} {nc : Option (Call β)} {a : Accumulator β} (hi : c.progress.acc = some i)
      (hmove : Move (some c) (some (s.pool i)) nc (some a) []) : Wf (s.setAcc i a) := by
    obtain ⟨hch, hsane⟩ := hmove.sane _ rfl (hw.sane i (htarget hi).1) _ rfl
    exact hw.setAcc hch hsane
  cases h with
  | immediate hp =>
    refine ⟨none, none, none, _, ⟨.immediate c hp, { hw.dropCall k with }, rfl, rfl,
      fun fc fa => ?_⟩, by simp [hp]⟩
    simpa [weigh] using weigh_dropCall fc fa hc
  | drain i hp =>
    have hacc : c.progress.acc = some i := congrArg Progress.acc hp
    have hmove := Move.drain c (s.pool i) i hp
    refine ⟨_, _, _, [], ⟨hmove, (hset hacc hmove).setCall hmem (.inr hacc.symm), rfl,
      by simp [setCall, setAcc], fun fc fa => ?_⟩, iff_of_true (by simp [hp]) rfl⟩
    exact weigh_setAcc_setCall fc fa hc (htarget hacc).1 _ _
  | wake i hp =>
    refine ⟨_, none, none, [], ⟨.wake c i hp, hw.setCall hmem (.inl rfl), rfl,
      by simp [setCall], fun fc fa => ?_⟩, by simp [hp]⟩
    simpa using weigh_setCall fc fa hc .immediate
  | divert i hp hclosed =>
    have hacc : c.progress.acc = some i := congrArg Progress.acc hp
    refine ⟨_, none, none, [], ⟨.divert c i hp, hw.setCall hmem (.inl rfl), rfl,
      by simp [setCall], fun fc fa => ?_⟩, ?_⟩
    · simpa using weigh_setCall fc fa hc .immediate
    · rcases (hw.sane i (htarget hacc).1).closed.mp hclosed with hf | hf <;> simp [hp, hf]
  | buffer i hp hopen =>
    have hacc : c.progress.acc = some i := congrArg Progress.acc hp
    obtain ⟨hi, hch⟩ := htarget hacc
    have hmove := Move.buffer c (s.pool i) _ i hp hch (.inr rfl)
    refine ⟨_, _, _, [], ⟨hmove, (hset hacc hmove).setCall hmem (.inr hacc.symm), rfl,
      by simp [setCall, setAcc], fun fc fa => ?_⟩, ?_⟩
    · exact weigh_setAcc_setCall fc fa hc hi _ _
    · simpa [hp] using stranded_push_eq_iff (hw.sane i hi) hopen c.pub
  | append i hp hopen =>
    have hacc : c.progress.acc = some i := congrArg Progress.acc hp
    obtain ⟨hi, hch⟩ := htarget hacc
    have hmove := Move.buffer c (s.pool i) _ i hp hch (.inl rfl)
    refine ⟨_, _, _, [], ⟨hmove, (hset hacc hmove).dropCall k, rfl,
      by simp [dropCall, setAcc], fun fc fa => ?_⟩, ?_⟩
    · exact weigh_setAcc_dropCall fc fa hc hi _
    · simpa [hp] using stranded_push_eq_iff (hw.sane i hi) hopen c.pub
  | notify i hp =>
    have hacc : c.progress.acc = some i := congrArg Progress.acc hp
    have hmove := Move.notify c (s.pool i) i hp
    refine ⟨_, _, _, [], ⟨hmove, (hset hacc hmove).dropCall k, rfl,
      by simp [dropCall, setAcc], fun fc fa => ?_⟩, iff_of_true (by simp [hp]) rfl⟩
    exact weigh_setAcc_dropCall fc fa hc (htarget hacc).1 _

theorem signal_eq_some {sig : Signal} (h : signal s i sig = some t) :
    ∃ a, Move none (some (s.pool i)) none (some a) [] ∧ t = s.setAcc i a := by
  unfold signal at h
  dsimp only at h
  split at h
  next hf =>
    split_ifs at h with hsig
    exact ⟨_, .flushNow _ hf hsig, (some.inj h).symm⟩
  next hf =>
    split_ifs at h with hsig
    exact ⟨_, .notified _ hf hsig, (some.inj h).symm⟩
  next hf => exact ⟨_, .timer _ hf, (some.inj h).symm⟩
  · cases h

theorem signal_moved (hw : Wf s) (hi : i < s.created) {sig : Signal} (h : signal s i sig = some t) :
    ∃ a, Moved s t none none (some (s.pool i)) (some a) [] := by
  obtain ⟨a, hmove, rfl⟩ := signal_eq_some h
  have hmoved := flusher_moved hw hi hmove
  rw [append_nil] at hmoved
  exact ⟨a, hmoved⟩

theorem Move.stranded_eq (h : Move none oa none na out) :
    na.elim 0 stranded = oa.elim 0 stranded := by
  cases h with
  | idle a h hbuf => simp [stranded, reaped, h, hbuf]
  | reached a h | below a h | window a h | nothing a h | swap a h | broadcast a _ h
  | returned a h | rearm a h | close a h | remove a h | flushNow a h | notified a h | timer a h =>
    simp [stranded, reaped, h]

theorem step_moved {a : Action β} (hw : Wf s) (h : step s a = some t) (ha : a.Internal) :
    ∃ oc nc oa na out, Moved s t oc nc oa na out ∧ (AppendsOutsideReap s a ↔
      na.elim 0 stranded = oa.elim 0 stranded) := by
  cases a with
  | deliver => exact ha.elim
  | proceed k =>
    obtain ⟨c, hc, h⟩ := bind_eq_some_iff.mp h
    obtain ⟨nc, oa, na, out, hmoved, hstrand⟩ := proceeds_moved hw hc (proceeds_of_proceed h)
    exact ⟨some c, nc, oa, na, out, hmoved, by simpa [AppendsOutsideReap, hc] using hstrand⟩
  | flusher i =>
    simp only [step] at h
    split_ifs at h with hi
    obtain ⟨a, out, hmoved⟩ := flusherStep_moved hw hi h
    exact ⟨_, _, _, _, out, hmoved, iff_of_true trivial hmoved.move.stranded_eq⟩
  | signal i sig =>
    simp only [step] at h
    split_ifs at h with hi
    obtain ⟨a, hmoved⟩ := signal_moved hw hi h
    exact ⟨_, _, _, _, [], hmoved, iff_of_true trivial hmoved.move.stranded_eq⟩

theorem newChannelAccumulator_sane (ch : String) :
    (newChannelAccumulator ch : Accumulator β).Sane :=
  ⟨by simp [newChannelAccumulator], rfl⟩

structure Delivered (s t : State β) (ch : String) (pub : Publication β) (p : Progress)
    (created : Nat) : Prop where
  wf : Wf t
  passed : t.passed = s.passed ++ [(ch, pub)]
  handed : t.handed = s.handed
  held : Call.held ⟨ch, pub, p⟩ = [(ch, pub)]
  weighs : ∀ fc fa, weigh fc fa t =
    weigh fc fa s + fc ⟨ch, pub, p⟩ + created * fa (newChannelAccumulator ch)

theorem deliver_delivered (hw : Wf s) (ch : String) (pub : Publication β) (enabled : Bool)
    (subCount : Nat) :
    ∃ p created, Delivered s (deliver s ch pub enabled subCount) ch pub p created := by
  have hadd : ∀ {p : Progress}, Call.held ⟨ch, pub, p⟩ = [(ch, pub)] →
      (∀ i, p.acc = some i → i < s.created ∧ (s.pool i).ch = ch) →
      Delivered s (s.addCall ch pub p) ch pub p 0 := fun hheld hp =>
    ⟨hw.addCall hp, rfl, rfl, hheld, fun fc fa => by simp [weigh_addCall]⟩
  have hfound : ∀ {p : Progress} {i : Nat}, s.accs ch = some i → p.acc = some i →
      ∀ j, p.acc = some j → j < s.created ∧ (s.pool j).ch = ch := by
    intro p i hi hp j hj
    cases hp.symm.trans hj
    exact hw.registered ch i hi
  unfold deliver
  split
  · exact ⟨_, 0, hadd rfl nofun⟩
  · split
    · split
      · exact ⟨_, 0, hadd rfl nofun⟩
      · rename_i i hi
        exact ⟨_, 0, hadd rfl (hfound hi rfl)⟩
    · split
      · rename_i i hi
        exact ⟨_, 0, hadd rfl (hfound hi rfl)⟩
      · have hold : ∀ j < s.created,
            update s.pool s.created (newChannelAccumulator ch) j = s.pool j :=
          fun j hj => update_of_ne (Nat.ne_of_lt hj) ..
        refine ⟨.appending s.created, 1, ⟨⟨?_, ?_, ?_⟩, rfl, rfl, rfl, fun fc fa => ?_⟩⟩
        · intro other i hi
          by_cases hother : other = ch
          · subst hother
            obtain rfl : s.created = i := by simpa using hi
            exact ⟨Nat.lt_succ_self _, by simp [setAcc, addCall, newChannelAccumulator]⟩
          · obtain ⟨hlt, hch⟩ := hw.registered other i (by simpa [hother] using hi)
            exact ⟨Nat.lt_succ_of_lt hlt, (congrArg Accumulator.ch (hold i hlt)).trans hch⟩
        · intro c hc i hi
          rcases mem_append.mp hc with hc | hc
          · obtain ⟨hlt, hch⟩ := hw.targets c hc i hi
            exact ⟨Nat.lt_succ_of_lt hlt, (congrArg Accumulator.ch (hold i hlt)).trans hch⟩
          · obtain rfl := mem_singleton.mp hc
            cases hi
            exact ⟨Nat.lt_succ_self _, by simp [setAcc, addCall, newChannelAccumulator]⟩
        · intro j hj
          rcases Nat.lt_succ_iff_lt_or_eq.mp hj with hj | rfl
          · simpa [setAcc, addCall, hold j hj] using hw.sane j hj
          · simpa [setAcc, addCall] using newChannelAccumulator_sane ch
        · have hsum : ∑ j ∈ Finset.range s.created,
              fa (update s.pool s.created (newChannelAccumulator ch) j) =
                ∑ j ∈ Finset.range s.created, fa (s.pool j) :=
            Finset.sum_congr rfl fun j hj => by rw [hold j (Finset.mem_range.mp hj)]
          simp only [weigh, addCall, setAcc, Finset.sum_range_succ, hsum,
            update_self, map_append, map_cons, map_nil, sum_append,
            sum_cons, sum_nil]
          omega

end Steps

section Ledger
variable {a : Action β}

/-- What was passed to `Deliver` is handed over or still held by a call or an accumulator, in any
additive measure of publications. -/
def Ledger (s : State β) : Prop :=
  ∀ f : String × Publication β → Nat, (s.passed.map f).sum = (s.handed.map f).sum +
    weigh (fun c => (c.held.map f).sum) (fun a => (a.kept.map f).sum) s

def stranded (s : State β) : Nat :=
  weigh (fun _ => 0) Accumulator.stranded s

def backlog (s : State β) : Nat :=
  weigh Call.rank rank s

theorem Moved.ledger (h : Moved s t oc nc oa na out) (hl : Ledger s) : Ledger t := by
  intro f
  have hperm := (h.move.conserves.map f).sum_eq
  have hweigh := h.weighs (fun c => (c.held.map f).sum) (fun a => (a.kept.map f).sum)
  have hold := hl f
  have helim : ∀ {γ : Type} (o : Option γ) (g : γ → List (String × Publication β)),
      ((o.elim [] g).map f).sum = o.elim 0 fun x => ((g x).map f).sum := by
    intro γ o g
    cases o <;> rfl
  simp only [map_append, sum_append, helim] at hperm
  rw [h.passed, h.handed, map_append, sum_append]
  omega

theorem Moved.stranded (h : Moved s t oc nc oa na out) :
    Batcher.stranded t = 0 ↔ Batcher.stranded s = 0 ∧
      na.elim 0 Accumulator.stranded = oa.elim 0 Accumulator.stranded := by
  have hweigh := h.weighs (fun _ => 0) Accumulator.stranded
  have hle := h.move.stranded_le
  have hzero : ∀ o : Option (Call β), o.elim 0 (fun _ => 0) = 0 := fun o => by cases o <;> rfl
  simp only [hzero] at hweigh
  unfold Batcher.stranded
  constructor
  · intro h
    omega
  · rintro ⟨hs, heq⟩
    omega

theorem Moved.backlog (h : Moved s t oc nc oa na out) : Batcher.backlog t < Batcher.backlog s := by
  have hweigh := h.weighs Call.rank rank
  have hlt := h.move.decreases
  unfold Batcher.backlog
  omega

theorem step_wf (hw : Wf s) (h : step s a = some t) : Wf t := by
  cases a with
  | deliver ch pub enabled subCount =>
    obtain ⟨p, n, hd⟩ := deliver_delivered hw ch pub enabled subCount
    exact some.inj h ▸ hd.wf
  | proceed | flusher | signal =>
    obtain ⟨oc, nc, oa, na, out, hmoved, -⟩ := step_moved hw h trivial
    exact hmoved.wf

theorem step_ledger (hw : Wf s) (hl : Ledger s) (h : step s a = some t) : Ledger t := by
  cases a with
  | deliver ch pub enabled subCount =>
    obtain ⟨p, n, hd⟩ := deliver_delivered hw ch pub enabled subCount
    rw [← some.inj h]
    intro f
    have hold := hl f
    have hweigh := hd.weighs (fun c => (c.held.map f).sum) (fun a => (a.kept.map f).sum)
    have hempty : (newChannelAccumulator ch : Accumulator β).kept = [] := rfl
    rw [hd.passed, hd.handed, hweigh, hd.held, hempty]
    simp only [map_append, map_cons, map_nil, sum_append, sum_cons,
      sum_nil]
    omega
  | proceed | flusher | signal =>
    obtain ⟨oc, nc, oa, na, out, hmoved, -⟩ := step_moved hw h trivial
    exact hmoved.ledger hl

theorem step_stranded (hw : Wf s) (h : step s a = some t) :
    stranded t = 0 ↔ stranded s = 0 ∧ AppendsOutsideReap s a := by
  cases a with
  | deliver ch pub enabled subCount =>
    obtain ⟨p, n, hd⟩ := deliver_delivered hw ch pub enabled subCount
    have hweigh := hd.weighs (fun _ => 0) Accumulator.stranded
    have hempty : (newChannelAccumulator ch : Accumulator β).stranded = 0 := rfl
    rw [← some.inj h, stranded, hweigh, hempty]
    simp [stranded, AppendsOutsideReap]
  | proceed | flusher | signal =>
    obtain ⟨oc, nc, oa, na, out, hmoved, hok⟩ := step_moved hw h trivial
    rw [hmoved.stranded, hok]

theorem ledger_start (settings : Settings) : Ledger (start settings : State β) :=
  fun _ => rfl

theorem Ledger.subperm (h : Ledger s) : s.handed.Subperm s.passed := by
  classical
  have hcount : ∀ x (ps : List (String × Publication β)),
      (ps.map fun y => if y = x then 1 else 0).sum = ps.count x := by
    intro x ps
    induction ps with
    | nil => rfl
    | cons y ps ih => simp [count_cons, ih, Nat.add_comm]
  rw [subperm_ext_iff]
  intro x _
  have := h fun y => if y = x then 1 else 0
  simp only [hcount] at this
  omega

theorem Ledger.length (h : Ledger s) (hq : Quiescent s) :
    s.passed.length = s.handed.length + stranded s := by
  have hone := h fun _ => 1
  have hkept : ∀ i ∈ Finset.range s.created,
      ((s.pool i).kept.map fun _ => 1).sum = (s.pool i).stranded := by
    intro i hi
    rcases hq.2 i (Finset.mem_range.mp hi) with hf | ⟨hf, hbuf⟩
    · simp [kept, batch, Accumulator.stranded, reaped, hf,
        comp_def]
    · simp [kept, batch, Accumulator.stranded, hf, hbuf]
  simp only [weigh, hq.1, Finset.sum_congr rfl hkept] at hone
  simpa [stranded, weigh, hq.1] using hone

end Ledger

section Progress

theorem flusherStep_enabled (hselect : (s.pool i).flusher ≠ .select)
    (hstopped : (s.pool i).flusher ≠ .stopped) : ∃ t, flusherStep s i = some t := by
  unfold flusherStep
  dsimp only
  cases hf : (s.pool i).flusher with
  | select => exact absurd hf hselect
  | stopped => exact absurd hf hstopped
  | threshold | timer | flush =>
    dsimp only
    split <;> exact ⟨_, rfl⟩
  | broadcasting | returning | rearm | reaping | removing => exact ⟨_, rfl⟩

theorem timer_enabled (hi : i < s.created) (hf : (s.pool i).flusher = .select) :
    ∃ t, step s (.signal i .timer) = some t :=
  ⟨_, by simp only [step, if_pos hi, signal, hf]; rfl⟩

/-- When every flusher waits or has stopped, a call in progress can go on, or the idle timer of
the accumulator it waits for can fire. -/
theorem call_enabled (hw : Wf s)
    (hquiet : ∀ i < s.created, (s.pool i).flusher = .stopped ∨
      (s.pool i).flusher = .select ∧ (s.pool i).buf = []) (hc : s.calls[0]? = some c) :
    ∃ a t, a.Internal ∧ step s a = some t := by
  have hgo : ∀ {t}, proceed s 0 c = some t → ∃ a t, a.Internal ∧ step s a = some t := fun {t} h =>
    ⟨.proceed 0, t, trivial, by simp only [step, hc, bind_some, h]⟩
  have htarget := fun i hi => hw.targets c (mem_of_getElem? hc) i hi
  cases hp : c.progress with
  | immediate | draining i | notifying i => exact hgo (by simp only [proceed, hp]; rfl)
  | waiting i =>
    obtain ⟨hi, -⟩ := htarget i (by simp [hp, Progress.acc])
    refine hgo (t := s.setCall 0 c .immediate) ?_
    simp only [proceed, hp]
    rcases hquiet i hi with hf | ⟨hf, hbuf⟩
    · rw [if_pos (.inl ((hw.sane i hi).closed.mpr (.inr hf)))]
    · have hidle : (s.pool i).inFlight = 0 := by simpa [hf] using (hw.sane i hi).inFlight
      rw [if_pos (.inr ⟨hbuf, hidle⟩)]
  | appending i =>
    obtain ⟨hi, -⟩ := htarget i (by simp [hp, Progress.acc])
    rcases hquiet i hi with hf | ⟨hf, -⟩
    · have hclosed := (hw.sane i hi).closed.mpr (.inr hf)
      exact hgo (by simp only [proceed, hp, append, hclosed, if_true]; rfl)
    · obtain ⟨t, ht⟩ := timer_enabled hi hf
      exact ⟨.signal i .timer, t, trivial, ht⟩

theorem internal_enabled (hw : Wf s) (hbusy : ¬ Quiescent s) :
    ∃ a t, a.Internal ∧ step s a = some t := by
  by_cases hquiet : ∀ i < s.created, (s.pool i).flusher = .stopped ∨
      (s.pool i).flusher = .select ∧ (s.pool i).buf = []
  · cases hcalls : s.calls with
    | nil => exact absurd ⟨hcalls, hquiet⟩ hbusy
    | cons c rest => exact call_enabled hw hquiet (c := c) (by rw [hcalls]; rfl)
  · simp only [not_forall, not_or] at hquiet
    obtain ⟨i, hi, hstopped, -⟩ := hquiet
    by_cases hf : (s.pool i).flusher = .select
    · obtain ⟨t, ht⟩ := timer_enabled hi hf
      exact ⟨.signal i .timer, t, trivial, ht⟩
    · obtain ⟨t, ht⟩ := flusherStep_enabled hf hstopped
      exact ⟨.flusher i, t, trivial, by simp only [step, if_pos hi, ht]⟩

end Progress

section Main

/-- In every interleaving before `Close`: nothing is handed over twice; while a call or a flusher
has work left, some step is enabled, and only finitely many steps follow before all is at rest;
and at rest everything passed to `Deliver` was handed over exactly once if and only if no
publication was buffered between the idle check and the close of a reap. -/
theorem batcher_conservation_iff {settings : Settings} {as : List (Action β)}
    (hrun : run (start settings) as = some s) :
    s.handed.Subperm s.passed ∧ (¬ Quiescent s → ∃ a t, a.Internal ∧ step s a = some t)
    ∧ (∀ a t, a.Internal → step s a = some t → backlog t < backlog s)
    ∧
    (Quiescent s → (s.handed.Perm s.passed ↔
      Transition.Along step AppendsOutsideReap (start settings) as)) := by
  obtain ⟨hwf, hl⟩ : Wf s ∧ Ledger s := Transition.invariant
    (P := fun s => Wf s ∧ Ledger s) ⟨wf_start settings, ledger_start settings⟩
    (fun _ _ _ hi h => ⟨step_wf hi.1 h, step_ledger hi.1 hi.2 h⟩) hrun
  have hrecorded : Transition.Along step AppendsOutsideReap (start settings) as ↔
      stranded s = 0 :=
    Transition.along_iff_recorded (P := Wf) (Q := fun s => stranded s = 0) (wf_start settings)
      (fun _ _ _ hw h => step_wf hw h) rfl (fun _ _ _ hw h => step_stranded hw h) hrun
  refine ⟨hl.subperm, internal_enabled hwf, fun a t ha h => ?_, fun hq => ?_⟩
  · obtain ⟨oc, nc, oa, na, out, hmoved, -⟩ := step_moved hwf h ha
    exact hmoved.backlog
  · rw [hrecorded]
    have hlength := hl.length hq
    constructor
    · intro hperm
      have := hperm.length_eq
      omega
    · intro hzero
      exact hl.subperm.perm_of_length_le (by omega)

abbrev tinyStart : State Unit :=
  .start ⟨1, 10, 100⟩

def note (offset : Nat) : Publication Unit :=
  ⟨offset, 1, ()⟩

def flushedRun : List (Action Unit) :=
  [.deliver "room" (note 1) true 5, .proceed 0, .proceed 0, .signal 0 .timer, .flusher 0,
    .flusher 0, .flusher 0, .flusher 0, .flusher 0]

def strandedRun : List (Action Unit) :=
  [.deliver "room" (note 1) true 5, .signal 0 .timer, .flusher 0, .proceed 0, .proceed 0,
    .flusher 0, .flusher 0]

theorem batcher_conservation_flushed : ∃ s, run tinyStart flushedRun = some s ∧
    (s.handed.Perm s.passed ↔ Transition.Along step AppendsOutsideReap tinyStart flushedRun) :=
  ⟨_, rfl, (batcher_conservation_iff rfl).2.2.2 (by decide)⟩

theorem batcher_conservation_stranded : ∃ s, run tinyStart strandedRun = some s ∧
    Quiescent s ∧ ¬ s.handed.Perm s.passed :=
  ⟨_, rfl, by decide, fun h => absurd h.length_eq (by decide)⟩

end Main

end MessageLoop.Batcher
