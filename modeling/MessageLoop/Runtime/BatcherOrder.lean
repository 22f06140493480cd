import MessageLoop.Runtime.BatcherConservation

/-!
Order of the batcher: publications of one channel that are passed to `Deliver` one after the other,
with increasing offsets, leave in that order and one hand-over at a time, unless the direct path
is taken while older publications are buffered or on their way.
-/

namespace MessageLoop.Batcher

open List Option Function Accumulator

variable {β : Type} {c : Call β} {a : Accumulator β} {i k : Nat} {p : Progress}
variable {calls : List (Call β)} {name : String} {pub : Publication β}

section Machine

/-- `running` holds the calls of the immediate function that have not returned. A broadcast runs
while its flusher is `returning`. -/
structure Timed (β : Type) where
  core : State β
  running : List (String × Publication β)

def Timed.start (settings : Settings) : Timed β :=
  ⟨.start settings, []⟩

inductive Event (β : Type) where
  | action (a : Action β)
  | returned (k : Nat)

def started (s : State β) : Action β → List (String × Publication β)
  | .proceed k =>
    match s.calls[k]? with
    | some c => if c.progress = .immediate then [(c.ch, c.pub)] else []
    | none => []
  | _ => []

def Timed.step (s : Timed β) : Event β → Option (Timed β)
  | .action a => (Batcher.step s.core a).map fun t => ⟨t, s.running ++ started s.core a⟩
  | .returned k =>
    if k < s.running.length then some { s with running := s.running.eraseIdx k } else none

abbrev Timed.run : Timed β → List (Event β) → Option (Timed β) :=
  Transition.run Timed.step

end Machine

section Lanes
variable (ch : String)

def Mine (p : String × Publication β) : Prop :=
  p.1 = ch ∧ 0 < p.2.offset

instance (p : String × Publication β) : Decidable (Mine ch p) :=
  inferInstanceAs (Decidable (_ ∧ _))

def lane (ps : List (String × Publication β)) : List Nat :=
  (ps.filter fun p => decide (Mine ch p)).map (·.2.offset)

/-- What an accumulator will still hand over: a reaped one hands over nothing. -/
def Accumulator.contents (a : Accumulator β) : List (Publication β) :=
  if a.reaped then [] else a.batch ++ a.buf

def Accumulator.Quiet (a : Accumulator β) : Prop :=
  a.contents = [] ∧ a.inFlight = 0

def pending (s : State β) : List Nat :=
  (s.accs ch).elim [] fun i => lane ch ((s.pool i).contents.map ((s.pool i).ch, ·))

def ours (calls : List (Call β)) : List (Call β) :=
  calls.filter fun c => decide (Mine ch (c.ch, c.pub))

def awaiting (s : State β) : List Nat :=
  (ours ch s.calls).flatMap fun c => c.held.map (·.2.offset)

/-- The publications of the channel in the order in which they have been and will be handed over. -/
def pipeline (s : State β) : List Nat :=
  lane ch s.handed ++ pending ch s ++ awaiting ch s

/-- The channel's publications with offsets are passed one after the other, with increasing
offsets. -/
def Serial (s : Timed β) : Event β → Prop
  | .action (.deliver c pub _ _) => Mine ch (c, pub) →
      ours ch s.core.calls = [] ∧ lane ch s.running = [] ∧
        ∀ x ∈ lane ch s.core.passed, x < pub.offset
  | _ => True

/-- The direct path is taken only when the channel's accumulator has nothing left to hand over. -/
def DirectQuiet (s : Timed β) : Event β → Prop
  | .action (.deliver c pub enabled subCount) => Mine ch (c, pub) →
      enabled = false ∨ subCount < s.core.settings.minSubscribers →
        ∀ i, s.core.accs ch = some i → (s.core.pool i).Quiet
  | _ => True

instance (s : Timed β) : (e : Event β) → Decidable (Serial ch s e)
  | .action (.deliver _ _ _ _) => inferInstanceAs (Decidable (_ → _))
  | .action (.proceed _) | .action (.flusher _) | .action (.signal _ _) | .returned _ =>
    inferInstanceAs (Decidable True)

instance (a : Accumulator β) : Decidable a.Quiet :=
  inferInstanceAs (Decidable (_ ∧ _))

instance (s : Timed β) : (e : Event β) → Decidable (DirectQuiet ch s e)
  | .action (.deliver _ _ _ _) =>
    inferInstanceAs (Decidable (_ → _ ∨ _ → ∀ i ∈ s.core.accs ch, _))
  | .action (.proceed _) | .action (.flusher _) | .action (.signal _ _) | .returned _ =>
    inferInstanceAs (Decidable True)

def NoneRunning (s : Timed β) : Prop :=
  lane ch s.running = [] ∧
    ∀ i < s.core.created, (s.core.pool i).ch = ch → (s.core.pool i).flusher ≠ .returning

def Exclusive (s : Timed β) : Event β → Prop
  | .action (.proceed k) => ∀ c, s.core.calls[k]? = some c → c.progress = .immediate →
      Mine ch (c.ch, c.pub) → NoneRunning ch s
  | .action (.flusher i) => i < s.core.created → (s.core.pool i).ch = ch →
      ∀ batch, (s.core.pool i).flusher = .broadcasting batch → NoneRunning ch s
  | _ => True

variable {ch} {s t : State β}

theorem lane_append (ps qs : List (String × Publication β)) :
    lane ch (ps ++ qs) = lane ch ps ++ lane ch qs := by
  simp [lane]

theorem lane_of_mine {p : String × Publication β} (hp : Mine ch p) :
    lane ch [p] = [p.2.offset] := by
  simp [lane, hp]

theorem lane_of_not_mine {p : String × Publication β} (hp : ¬Mine ch p) : lane ch [p] = [] := by
  simp [lane, hp]

theorem lane_other (hname : name ≠ ch) (ps : List (Publication β)) :
    lane ch (ps.map (name, ·)) = [] := by
  simp [lane, Mine, hname]

theorem ours_split (ch : String) (hc : calls[k]? = some c) :
    ∃ before after, ours ch calls = before ++ ours ch [c] ++ after ∧
      ours ch (calls.eraseIdx k) = before ++ after ∧
      ∀ c', ours ch (calls.set k c') = before ++ ours ch [c'] ++ after := by
  obtain ⟨hk, rfl⟩ := List.getElem?_eq_some_iff.mp hc
  have hsplit : calls = calls.take k ++ [calls[k]] ++ calls.drop (k + 1) := by simp
  refine ⟨ours ch (calls.take k), ours ch (calls.drop (k + 1)), ?_, ?_, fun c' => ?_⟩
  · conv_lhs => rw [hsplit]
    simp only [ours, filter_append]
  · rw [eraseIdx_eq_take_drop_succ]
    simp only [ours, filter_append]
  · rw [set_eq_take_append_cons_drop, if_pos hk, ← singleton_append]
    simp only [ours, filter_append, append_assoc]

theorem ours_singleton (hc : Mine ch (c.ch, c.pub)) : ours ch [c] = [c] := by
  simp [ours, hc]

theorem ours_singleton_other (hc : ¬Mine ch (c.ch, c.pub)) : ours ch [c] = [] := by
  simp [ours, hc]

theorem pending_setAcc (i : Nat) (a : Accumulator β) :
    pending ch (s.setAcc i a) =
      if s.accs ch = some i then lane ch (a.contents.map (a.ch, ·)) else pending ch s := by
  unfold pending State.setAcc
  cases hacc : s.accs ch with
  | none => simp
  | some j =>
    by_cases hj : j = i
    · subst hj
      simp
    · simp [hj]

end Lanes

section Moves
variable {a' : Accumulator β} {out : List (String × Publication β)}

theorem Move.contents (h : Move none (some a) none (some a') out) :
    ∃ pubs, out = pubs.map (a.ch, ·) ∧ a.contents = pubs ++ a'.contents ∧ a'.ch = a.ch ∧
      (a'.reaped = false → a.reaped = false) := by
  cases h with
  | broadcast a batch h =>
    exact ⟨batch, rfl, by simp [contents, reaped, Accumulator.batch, h],
      rfl, fun _ => by simp [reaped, h]⟩
  | idle a h hbuf =>
    exact ⟨[], rfl, by simp [contents, reaped, batch, h, hbuf],
      rfl, fun _ => by simp [reaped, h]⟩
  | reached a h | below a h | window a h | nothing a h | swap a h | returned a h | rearm a h
  | close a h | remove a h | flushNow a h | notified a h | timer a h =>
    exact ⟨[], rfl, by simp [contents, reaped, batch, h], rfl,
      by simp [reaped, h]⟩

theorem Move.quiet (h : Move none (some a) none (some a') out) (hsane : a.Sane)
    (hquiet : a.Quiet) : a'.Quiet := by
  obtain ⟨pubs, -, hcontents, -, -⟩ := h.contents
  obtain ⟨hempty, hidle⟩ := hquiet
  have hinFlight := hsane.inFlight
  refine ⟨(append_eq_nil_iff.mp (hcontents.symm.trans hempty)).2, ?_⟩
  cases h with
  | swap a h hbuf =>
    simp [Accumulator.contents, reaped, batch, h, hbuf] at hempty
  | returned a h =>
    rw [h, hidle] at hinFlight
    cases hinFlight
  | reached | below | idle | window | nothing | broadcast | rearm | close | remove | flushNow
  | notified | timer => exact hidle

theorem reaped_of_closed (hsane : a.Sane) (hclosed : a.closed = true) : a.reaped = true := by
  rcases hsane.closed.mp hclosed with h | h <;> simp [reaped, h]

theorem quiet_of_reaped (hsane : a.Sane) (hreaped : a.reaped = true) : a.Quiet := by
  refine ⟨by simp [contents, hreaped], ?_⟩
  rw [hsane.inFlight]
  unfold reaped at hreaped
  cases hf : a.flusher <;> simp_all

theorem quiet_of_drained (hsane : a.Sane)
    (hdrained : a.closed = true ∨ a.buf = [] ∧ a.inFlight = 0) : a.Quiet := by
  rcases hdrained with hclosed | ⟨hbuf, hidle⟩
  · exact quiet_of_reaped hsane (reaped_of_closed hsane hclosed)
  · refine ⟨?_, hidle⟩
    have hinFlight := hsane.inFlight
    rw [hidle] at hinFlight
    have hbatch : a.batch = [] := by
      unfold batch
      cases hf : a.flusher with
      | broadcasting batch => simp [hf] at hinFlight
      | _ => rfl
    simp [contents, hbatch, hbuf]

theorem contents_push (pub : Publication β) :
    (a.push pub).contents = if a.reaped then [] else a.contents ++ [pub] := by
  have hreaped : (a.push pub).reaped = a.reaped := rfl
  have hbatch : (a.push pub).batch = a.batch := rfl
  unfold contents
  rw [hreaped, hbatch]
  cases a.reaped <;> simp [push]

theorem Quiet.not_busy (hsane : a.Sane) (hquiet : a.Quiet) :
    a.flusher ≠ .returning ∧ ∀ batch, a.flusher ≠ .broadcasting batch := by
  have hinFlight := hsane.inFlight
  rw [hquiet.2] at hinFlight
  constructor
  · intro h
    simp [h] at hinFlight
  · intro batch h
    simp [h] at hinFlight

end Moves

section Shape
variable {s t : State β}

/-- An accumulator that is not reaped is the registered one of its channel, and only publications
with an offset come near an accumulator. -/
structure Shape (s : State β) : Prop where
  wf : Wf s
  registered : ∀ i < s.created, (s.pool i).reaped = false → s.accs (s.pool i).ch = some i
  numbered : ∀ c ∈ s.calls, c.pub.offset = 0 → c.progress = .immediate

theorem shape_start (settings : Settings) : Shape (State.start settings : State β) where
  wf := wf_start settings
  registered i hi := absurd hi (Nat.not_lt_zero i)
  numbered _ h := by cases h

theorem pool_setAcc (i j : Nat) (a : Accumulator β) :
    (s.setAcc i a).pool j = if j = i then a else s.pool j := by
  simp [State.setAcc, update_apply]

variable (h : Shape s)
include h

theorem Shape.registered_setAcc (hch : a.ch = (s.pool i).ch)
    (hreaped : a.reaped = false → (s.pool i).reaped = false) :
    ∀ j < s.created, ((s.setAcc i a).pool j).reaped = false →
      s.accs ((s.setAcc i a).pool j).ch = some j := by
  intro j hj hlive
  rw [pool_setAcc] at hlive ⊢
  split at hlive
  case isTrue heq =>
    subst heq
    rw [if_pos rfl, hch]
    exact h.registered j hj (hreaped hlive)
  case isFalse hne =>
    rw [if_neg hne]
    exact h.registered j hj hlive

theorem Shape.numbered_set (hc : s.calls[k]? = some c)
    (hp : c.progress ≠ .immediate ∨ p = .immediate) :
    ∀ c' ∈ s.calls.set k { c with progress := p }, c'.pub.offset = 0 →
      c'.progress = .immediate := by
  refine forall_mem_set h.numbered fun hzero => ?_
  rcases hp with hp | hp
  · exact absurd (h.numbered c (mem_of_getElem? hc) hzero) hp
  · exact hp

theorem Shape.deliver (name : String) (pub : Publication β) (enabled : Bool) (subCount : Nat)
    (hwf : Wf (deliver s name pub enabled subCount)) :
    Shape (deliver s name pub enabled subCount) := by
  have hadd {p : Progress} (hp : pub.offset = 0 → p = .immediate) :
      ∀ c ∈ s.calls ++ [⟨name, pub, p⟩], c.pub.offset = 0 → c.progress = .immediate :=
    forall_mem_snoc h.numbered hp
  revert hwf
  unfold Batcher.deliver
  split
  case isTrue => exact fun hwf => ⟨hwf, h.registered, hadd fun _ => rfl⟩
  case isFalse hroute =>
    have hoffset {p : Progress} (hzero : pub.offset = 0) : p = .immediate :=
      absurd (.inl hzero) hroute
    split
    case isTrue =>
      split
      case h_1 => exact fun hwf => ⟨hwf, h.registered, hadd fun _ => rfl⟩
      case h_2 => exact fun hwf => ⟨hwf, h.registered, hadd hoffset⟩
    case isFalse =>
      split
      case h_1 => exact fun hwf => ⟨hwf, h.registered, hadd hoffset⟩
      case h_2 hnone =>
        refine fun hwf => ⟨hwf, fun j hj hlive => ?_, hadd hoffset⟩
        dsimp only [State.addCall] at hlive ⊢
        rw [pool_setAcc] at hlive ⊢
        by_cases hnew : j = s.created
        · subst hnew
          rw [if_pos rfl]
          exact update_self ..
        · rw [if_neg hnew] at hlive ⊢
          have hsome := h.registered j (Nat.lt_of_le_of_ne (Nat.le_of_lt_succ hj) hnew) hlive
          have hname : (s.pool j).ch ≠ name := by
            rintro rfl
            rw [hnone] at hsome
            cases hsome
          rw [update_of_ne hname]
          exact hsome

theorem Shape.proceeds (hc : s.calls[k]? = some c) (hwf : Wf t)
    (hstep : Proceeds s k c t) : Shape t := by
  have hdrop : ∀ c' ∈ s.calls.eraseIdx k, c'.pub.offset = 0 → c'.progress = .immediate :=
    fun c' hc' => h.numbered c' (mem_of_mem_eraseIdx hc')
  cases hstep with
  | immediate => exact ⟨hwf, h.registered, hdrop⟩
  | wake | divert => exact ⟨hwf, h.registered, h.numbered_set hc (.inr rfl)⟩
  | drain i hp | buffer i hp =>
    exact ⟨hwf, h.registered_setAcc (i := i) rfl id, h.numbered_set hc (.inl (by simp [hp]))⟩
  | append i hp | notify i hp => exact ⟨hwf, h.registered_setAcc (i := i) rfl id, hdrop⟩

theorem Shape.flusherStep (hwf : Wf t) (hstep : flusherStep s i = some t) : Shape t := by
  obtain ⟨a, out, hmove, ht⟩ := flusherStep_eq_some hstep
  obtain ⟨-, -, -, hch, hreaped⟩ := hmove.contents
  have hset := h.registered_setAcc (i := i) hch hreaped
  rcases ht with rfl | ⟨hdead, hacc, rfl⟩
  · exact ⟨hwf, hset, h.numbered⟩
  · refine ⟨hwf, fun j hj hlive => ?_, h.numbered⟩
    have hsome := hset j hj hlive
    have hne : ((s.setAcc i a).pool j).ch ≠ a.ch := by
      intro heq
      rw [heq, hacc] at hsome
      cases hsome
      dsimp only at hlive
      rw [pool_setAcc, if_pos rfl, hdead] at hlive
      cases hlive
    dsimp only
    rw [update_of_ne hne]
    exact hsome

theorem shape_step {a : Action β} (hstep : step s a = some t) : Shape t := by
  have hwf := step_wf h.wf hstep
  cases a with
  | deliver name pub enabled subCount =>
    cases hstep
    exact h.deliver name pub enabled subCount hwf
  | proceed k =>
    obtain ⟨c, hc, hproceed⟩ := bind_eq_some_iff.mp hstep
    exact h.proceeds hc hwf (proceeds_of_proceed hproceed)
  | flusher i =>
    simp only [Batcher.step] at hstep
    split_ifs at hstep
    exact h.flusherStep hwf hstep
  | signal i sig =>
    simp only [Batcher.step] at hstep
    split_ifs at hstep
    obtain ⟨a, hmove, rfl⟩ := signal_eq_some hstep
    obtain ⟨-, -, -, hch, hreaped⟩ := hmove.contents
    exact ⟨hwf, h.registered_setAcc hch hreaped, h.numbered⟩

end Shape

section Lane
variable {ch : String} {s t : Timed β}

def Busy (ch : String) (s : Timed β) : Prop :=
  (∃ c ∈ ours ch s.core.calls, c.progress = .immediate) ∨ lane ch s.running ≠ []

def QuietOn (ch : String) (s : State β) : Prop :=
  ∀ i, s.accs ch = some i → (s.pool i).Quiet

/-- The pipeline of the channel is in order, and its accumulator is quiet while the immediate
function is in use. -/
structure InLane (ch : String) (s : Timed β) : Prop where
  single : (ours ch s.core.calls).length + (lane ch s.running).length ≤ 1
  aimed : ∀ c ∈ ours ch s.core.calls, ∀ i, c.progress.acc = some i →
    s.core.accs ch = some i ∨ s.core.accs ch = none
  ordered : (pipeline ch s.core).Pairwise (· < ·)
  accounted : ∀ x ∈ pipeline ch s.core, x ∈ lane ch s.core.passed
  quiet : Busy ch s → QuietOn ch s.core

theorem inLane_start (settings : Settings) : InLane ch (Timed.start settings : Timed β) where
  single := Nat.zero_le 1
  aimed _ h := by cases h
  ordered := .nil
  accounted _ h := by cases h
  quiet _ _ h := by cases h

theorem mem_ours :
    c ∈ ours ch calls ↔ c ∈ calls ∧ Mine ch (c.ch, c.pub) := by
  simp [ours]

theorem pending_of_quiet {s : State β} (hquiet : QuietOn ch s) : pending ch s = [] := by
  unfold pending
  cases hacc : s.accs ch with
  | none => rfl
  | some i => simp [(hquiet i hacc).1, lane]

theorem InLane.alone (h : InLane ch s) (hc : s.core.calls[k]? = some c)
    (hmine : Mine ch (c.ch, c.pub)) : ours ch s.core.calls = [c] ∧ lane ch s.running = [] ∧
      ours ch (s.core.calls.eraseIdx k) = [] ∧
      ∀ p, ours ch (s.core.calls.set k { c with progress := p }) = [{ c with progress := p }] := by
  obtain ⟨before, after, hours, herase, hset⟩ := ours_split ch hc
  have hsingle := h.single
  rw [hours, ours_singleton hmine] at hsingle
  simp only [length_append, length_singleton] at hsingle
  have hbefore : before = [] := eq_nil_of_length_eq_zero (by omega)
  have hafter : after = [] := eq_nil_of_length_eq_zero (by omega)
  subst hbefore hafter
  refine ⟨by rw [hours, ours_singleton hmine]; rfl, ?_, herase, fun p => ?_⟩
  · exact eq_nil_of_length_eq_zero (by omega)
  · rw [hset, ours_singleton (c := { c with progress := p }) hmine]
    rfl

theorem ours_of_not_mine (hc : calls[k]? = some c) (hother : ¬Mine ch (c.ch, c.pub)) :
    ours ch (calls.eraseIdx k) = ours ch calls ∧
      ∀ p, ours ch (calls.set k { c with progress := p }) = ours ch calls := by
  obtain ⟨before, after, hours, herase, hset⟩ := ours_split ch hc
  rw [hours, ours_singleton_other hother, herase, append_nil]
  refine ⟨rfl, fun p => ?_⟩
  rw [hset, ours_singleton_other (c := { c with progress := p }) hother, append_nil]

theorem pipeline_congr {s t : State β} (hawaiting : awaiting ch t = awaiting ch s)
    (hpending : pending ch t = pending ch s) (hhanded : t.handed = s.handed) :
    pipeline ch t = pipeline ch s := by
  rw [pipeline, pipeline, hhanded, hpending, hawaiting]

theorem InLane.frame (h : InLane ch s) (hours : ours ch t.core.calls = ours ch s.core.calls)
    (hrunning : lane ch t.running = lane ch s.running)
    (haccs : t.core.accs ch = s.core.accs ch ∨ t.core.accs ch = none)
    (hpassed : lane ch t.core.passed = lane ch s.core.passed)
    (hpipeline : pipeline ch t.core = pipeline ch s.core)
    (hquiet : ∀ i, t.core.accs ch = some i → (s.core.pool i).Quiet → (t.core.pool i).Quiet) :
    InLane ch t where
  single := by rw [hours, hrunning]; exact h.single
  aimed c hc i hi := by
    rcases haccs with hsame | hnone
    · rw [hsame]
      exact h.aimed c (hours ▸ hc) i hi
    · exact .inr hnone
  ordered := hpipeline ▸ h.ordered
  accounted x hx := hpassed ▸ h.accounted x (hpipeline ▸ hx)
  quiet hbusy i hi := by
    have hold : s.core.accs ch = some i := by
      rcases haccs with hsame | hnone
      · exact hsame ▸ hi
      · rw [hnone] at hi
        cases hi
    refine hquiet i hi (h.quiet ?_ i hold)
    rcases hbusy with ⟨c, hc, hp⟩ | hrun
    · exact .inl ⟨c, hours ▸ hc, hp⟩
    · exact .inr (hrunning ▸ hrun)

theorem InLane.advance (h : InLane ch s) (left : Option (Call β)) (hs : ours ch s.core.calls = [c])
    (ht : ours ch t.core.calls = left.toList)
    (hrunning : lane ch t.running = [] ∨ left = none ∧ (lane ch t.running).length ≤ 1)
    (haccs : t.core.accs ch = s.core.accs ch)
    (hacc : ∀ d, left = some d → d.progress.acc = none ∨ d.progress.acc = c.progress.acc)
    (hpassed : t.core.passed = s.core.passed)
    (hpipeline : (pipeline ch t.core).Sublist (pipeline ch s.core))
    (hquiet : Busy ch t → QuietOn ch t.core) : InLane ch t where
  single := by
    rw [ht]
    rcases hrunning with hnone | ⟨rfl, hle⟩
    · rw [hnone]
      cases left <;> simp
    · simpa using hle
  aimed d hd i hi := by
    rw [ht, mem_toList] at hd
    rcases hacc d hd with hnone | hsame
    · rw [hnone] at hi
      cases hi
    · rw [haccs]
      exact h.aimed c (by simp [hs]) i (hsame ▸ hi)
  ordered := h.ordered.sublist hpipeline
  accounted x hx := hpassed ▸ h.accounted x (hpipeline.subset hx)
  quiet := hquiet

theorem pipeline_setAcc {s : State β} (hs : Shape s) (hi : i < s.created)
    {pubs : List (Publication β)} (hch : a.ch = (s.pool i).ch)
    (hcontents : (s.pool i).contents = pubs ++ a.contents) :
    lane ch (pubs.map ((s.pool i).ch, ·)) ++ pending ch (s.setAcc i a) = pending ch s := by
  rw [pending_setAcc]
  split
  case isTrue hacc =>
    rw [pending, hacc, elim_some, hcontents, map_append, lane_append, hch]
  case isFalse hacc =>
    -- Only the registered accumulator of the channel has something to hand over on it.
    by_cases hname : (s.pool i).ch = ch
    · have hdead : (s.pool i).reaped = true := by
        by_contra hlive
        exact hacc (hname ▸ hs.registered i hi (by simpa using hlive))
      rw [contents, if_pos hdead] at hcontents
      rw [(append_eq_nil_iff.mp hcontents.symm).1]
      rfl
    · rw [lane_other hname, nil_append]

section
variable (h : InLane ch s)
include h

theorem InLane.setAcc (hs : Shape s.core) (hi : i < s.core.created) {pubs : List (Publication β)}
    (hch : a.ch = (s.core.pool i).ch) (hcontents : (s.core.pool i).contents = pubs ++ a.contents)
    (hquiet : (s.core.pool i).Quiet → a.Quiet) : InLane ch ⟨{ s.core.setAcc i a with
      handed := s.core.handed ++ pubs.map ((s.core.pool i).ch, ·) }, s.running⟩ := by
  refine h.frame rfl rfl (.inl rfl) rfl ?_ fun j _ hold => ?_
  · calc pipeline ch { s.core.setAcc i a with
          handed := s.core.handed ++ pubs.map ((s.core.pool i).ch, ·) }
        = lane ch (s.core.handed ++ pubs.map ((s.core.pool i).ch, ·)) ++
            pending ch (s.core.setAcc i a) ++ awaiting ch s.core := rfl
      _ = pipeline ch s.core := by
        rw [lane_append, append_assoc (lane ch s.core.handed),
          pipeline_setAcc hs hi hch hcontents]
        rfl
  · dsimp only
    rw [pool_setAcc]
    split
    case isTrue heq =>
      subst heq
      exact hquiet hold
    case isFalse => exact hold

theorem InLane.setFlags (hs : Shape s.core) (hi : i < s.core.created)
    (hch : a.ch = (s.core.pool i).ch) (hcontents : a.contents = (s.core.pool i).contents)
    (hinFlight : a.inFlight = (s.core.pool i).inFlight) :
    InLane ch ⟨s.core.setAcc i a, s.running⟩ := by
  have hnone : (s.core.pool i).contents = [] ++ a.contents := hcontents.symm
  have hset := h.setAcc hs hi hch hnone
    fun hquiet => ⟨hcontents.trans hquiet.1, hinFlight.trans hquiet.2⟩
  rwa [map_nil, append_nil] at hset

theorem InLane.unregister (hacc : s.core.accs name = some i)
    (hreaped : (s.core.pool i).reaped = true) :
    InLane ch ⟨{ s.core with accs := update s.core.accs name none }, s.running⟩ := by
  have hpending : pending ch { s.core with accs := update s.core.accs name none } =
      pending ch s.core := by
    unfold pending
    by_cases hname : ch = name
    · subst hname
      simp [hacc, contents, hreaped, lane]
    · simp [hname]
  refine h.frame rfl rfl ?_ rfl (pipeline_congr rfl hpending rfl) fun _ _ hquiet => hquiet
  by_cases hname : ch = name
  · exact .inr (by simp [hname])
  · exact .inl (by simp [hname])

theorem InLane.flusherStep (hs : Shape s.core) (hi : i < s.core.created) {t : State β}
    (hstep : flusherStep s.core i = some t) :
    InLane ch ⟨t, s.running⟩ := by
  obtain ⟨a, out, hmove, ht⟩ := flusherStep_eq_some hstep
  obtain ⟨pubs, rfl, hcontents, hch, -⟩ := hmove.contents
  have hset := h.setAcc hs hi hch hcontents (hmove.quiet (hs.wf.sane i hi))
  rcases ht with rfl | ⟨hdead, hacc, rfl⟩
  · exact hset
  · exact hset.unregister (i := i) hacc (by simpa [State.setAcc] using hdead)

theorem InLane.signal (hs : Shape s.core) (hi : i < s.core.created) {sig : Signal} {t : State β}
    (hstep : signal s.core i sig = some t) :
    InLane ch ⟨t, s.running⟩ := by
  obtain ⟨a, hmove, rfl⟩ := signal_eq_some hstep
  obtain ⟨pubs, hout, hcontents, hch, -⟩ := hmove.contents
  obtain rfl : pubs = [] := by simpa using hout.symm
  have hset := h.setAcc hs hi hch hcontents (hmove.quiet (hs.wf.sane i hi))
  rwa [map_nil, append_nil] at hset

theorem InLane.addCall
    (hserial : Mine ch (name, pub) → ours ch s.core.calls = [] ∧ lane ch s.running = [] ∧
      ∀ x ∈ lane ch s.core.passed, x < pub.offset)
    (htarget : ∀ i, p.acc = some i → s.core.accs name = some i)
    (hheld : Call.held ⟨name, pub, p⟩ = [(name, pub)])
    (hquiet : Mine ch (name, pub) → p = .immediate → QuietOn ch s.core) :
    InLane ch ⟨s.core.addCall name pub p, s.running⟩ := by
  have hours : ours ch (s.core.addCall name pub p).calls =
      ours ch s.core.calls ++ ours ch [⟨name, pub, p⟩] := filter_append ..
  have hpassed : lane ch (s.core.addCall name pub p).passed =
      lane ch s.core.passed ++ lane ch [(name, pub)] := lane_append _ _
  have hpipeline : pipeline ch (s.core.addCall name pub p) =
      pipeline ch s.core ++ (ours ch [⟨name, pub, p⟩]).flatMap fun c => c.held.map (·.2.offset) := by
    have hawaiting : awaiting ch (s.core.addCall name pub p) = awaiting ch s.core ++
        (ours ch [⟨name, pub, p⟩]).flatMap fun c => c.held.map (·.2.offset) := by
      rw [awaiting, hours, flatMap_append]
      rfl
    rw [pipeline, hawaiting, ← append_assoc]
    rfl
  by_cases hmine : Mine ch (name, pub)
  · obtain ⟨hnone, hrunning, hnew⟩ := hserial hmine
    rw [ours_singleton (c := ⟨name, pub, p⟩) hmine] at hours hpipeline
    rw [flatMap_singleton, hheld, map_singleton] at hpipeline
    rw [lane_of_mine hmine] at hpassed
    rw [hnone, nil_append] at hours
    exact
      { single := by simp [hours, hrunning]
        aimed := by
          intro c hc i hi
          rw [hours] at hc
          obtain rfl := mem_singleton.mp hc
          obtain rfl : name = ch := hmine.1
          exact .inl (htarget i hi)
        ordered := by
          rw [hpipeline]
          refine pairwise_append.mpr ⟨h.ordered, pairwise_singleton .., ?_⟩
          intro x hx y hy
          rw [mem_singleton.mp hy]
          exact hnew x (h.accounted x hx)
        accounted := by
          intro x hx
          rw [hpipeline] at hx
          rw [hpassed]
          rcases mem_append.mp hx with hx | hx
          · exact mem_append_left _ (h.accounted x hx)
          · exact mem_append_right _ hx
        quiet := by
          rintro (⟨c, hc, himmediate⟩ | hrun)
          · rw [hours] at hc
            obtain rfl := mem_singleton.mp hc
            exact hquiet hmine himmediate
          · exact absurd hrunning hrun }
  · rw [ours_singleton_other (c := ⟨name, pub, p⟩) hmine, append_nil] at hours
    rw [ours_singleton_other (c := ⟨name, pub, p⟩) hmine, flatMap_nil, append_nil]
      at hpipeline
    rw [lane_of_not_mine hmine, append_nil] at hpassed
    exact h.frame hours rfl (.inl rfl) hpassed hpipeline fun _ _ hold => hold

theorem InLane.create (hs : Shape s.core) (hnone : s.core.accs name = none)
    (hidle : name = ch → ours ch s.core.calls = []) :
    InLane ch ⟨{ s.core.setAcc s.core.created (newChannelAccumulator name) with
      accs := update s.core.accs name (some s.core.created)
      created := s.core.created + 1 }, s.running⟩ := by
  have hempty : (newChannelAccumulator name : Accumulator β).Quiet := ⟨rfl, rfl⟩
  set u : State β := { s.core.setAcc s.core.created (newChannelAccumulator name) with
    accs := update s.core.accs name (some s.core.created)
    created := s.core.created + 1 }
  have hold {j : Nat} (hj : s.core.accs ch = some j) : u.pool j = s.core.pool j := by
    have hlt := (hs.wf.registered ch j hj).1
    simp [u, State.setAcc, Nat.ne_of_lt hlt]
  have hpending : pending ch u = pending ch s.core := by
    unfold pending
    by_cases hname : ch = name
    · subst hname
      simp [u, hnone, State.setAcc, hempty.1, lane]
    · cases hacc : s.core.accs ch with
      | none => simp [u, hname, hacc]
      | some j =>
        have haccs : u.accs ch = some j := by simpa [u, hname] using hacc
        rw [haccs, elim_some, elim_some, hold hacc]
  have hpipeline : pipeline ch u = pipeline ch s.core := pipeline_congr rfl hpending rfl
  by_cases hname : ch = name
  · subst hname
    exact
      { single := h.single
        aimed := by
          intro c hc
          have hnil : c ∈ ours ch s.core.calls := hc
          rw [hidle rfl] at hnil
          cases hnil
        ordered := hpipeline ▸ h.ordered
        accounted := by
          rw [hpipeline]
          exact h.accounted
        quiet := by
          intro _ j hj
          obtain rfl : s.core.created = j := by simpa [u] using hj
          simpa [u, State.setAcc] using hempty }
  · have haccs : u.accs ch = s.core.accs ch := by simp [u, hname]
    refine h.frame rfl rfl (.inl haccs) rfl hpipeline fun j hj hquiet => ?_
    dsimp only at hj ⊢
    rw [haccs] at hj
    rw [hold hj]
    exact hquiet

theorem InLane.deliver (hs : Shape s.core) {enabled : Bool} {subCount : Nat}
    (hserial : Serial ch s (.action (.deliver name pub enabled subCount)))
    (hdirect : DirectQuiet ch s (.action (.deliver name pub enabled subCount))) :
    InLane ch ⟨deliver s.core name pub enabled subCount, s.running⟩ := by
  have hfree (i : Nat) (hi : Progress.immediate.acc = some i) : s.core.accs name = some i := by
    cases hi
  have hfound {i : Nat} (hi : s.core.accs name = some i) (j : Nat) (hj : some i = some j) :
      s.core.accs name = some j := hi.trans hj
  unfold Batcher.deliver
  split
  case isTrue hroute =>
    refine h.addCall hserial hfree rfl fun hmine _ => ?_
    rcases hroute with hzero | hroute
    · exact absurd hzero (Nat.ne_of_gt hmine.2)
    · exact hdirect hmine hroute
  case isFalse hroute =>
    split
    case isTrue =>
      split
      case h_1 hnone =>
        refine h.addCall hserial hfree rfl fun hmine _ i hi => ?_
        obtain rfl : name = ch := hmine.1
        rw [hnone] at hi
        cases hi
      case h_2 i hi =>
        exact h.addCall hserial (hfound hi) rfl nofun
    case isFalse =>
      split
      case h_1 i hi =>
        exact h.addCall hserial (hfound hi) rfl nofun
      case h_2 hnone =>
        have hidle (heq : name = ch) : ours ch s.core.calls = [] :=
          (hserial ⟨heq, Nat.pos_of_ne_zero fun hzero => hroute (.inl hzero)⟩).1
        exact (h.create hs hnone hidle).addCall (p := .appending s.core.created) hserial
          (fun i hi => some.inj hi ▸ update_self ..) rfl
          nofun

theorem InLane.returned (k : Nat) :
    InLane ch ⟨s.core, s.running.eraseIdx k⟩ := by
  have hsub : (lane ch (s.running.eraseIdx k)).Sublist (lane ch s.running) :=
    ((eraseIdx_sublist s.running k).filter _).map _
  refine { h with single := ?_, quiet := ?_ }
  · have hlength := hsub.length_le
    have hsingle := h.single
    dsimp only
    omega
  · rintro (hcall | hrun)
    · exact h.quiet (.inl hcall)
    · refine h.quiet (.inr fun hnil => hrun ?_)
      rw [hnil] at hsub
      exact sublist_nil.mp hsub

variable (hc : s.core.calls[k]? = some c)
include hc

theorem InLane.setCall (hacc : p.acc = none ∨ p.acc = c.progress.acc)
    (hheld : Call.held { c with progress := p } = c.held)
    (hquiet : p = .immediate → Mine ch (c.ch, c.pub) → QuietOn ch s.core) :
    InLane ch ⟨s.core.setCall k c p, s.running⟩ := by
  by_cases hmine : Mine ch (c.ch, c.pub)
  · obtain ⟨honly, hrunning, -, hset⟩ := h.alone hc hmine
    have hawaiting : awaiting ch (s.core.setCall k c p) = awaiting ch s.core := by
      simp only [awaiting, State.setCall, hset, honly, flatMap_singleton, hheld]
    refine h.advance (some { c with progress := p }) honly (hset p) (.inl hrunning) rfl ?_
      rfl (by rw [pipeline_congr hawaiting rfl rfl]) ?_
    · intro d hd
      cases hd
      exact hacc
    · rintro (⟨d, hd, himmediate⟩ | hrun)
      · simp only [State.setCall, hset, mem_singleton] at hd
        subst hd
        exact hquiet himmediate hmine
      · exact absurd hrunning hrun
  · have hours := (ours_of_not_mine hc hmine).2 p
    refine h.frame hours rfl (.inl rfl) rfl (pipeline_congr ?_ rfl rfl) fun _ _ hold => hold
    simp only [awaiting, State.setCall, hours]

theorem InLane.dropCall (hheld : c.held = []) : InLane ch ⟨s.core.dropCall k, s.running⟩ := by
  by_cases hmine : Mine ch (c.ch, c.pub)
  · obtain ⟨honly, hrunning, herase, -⟩ := h.alone hc hmine
    have hawaiting : awaiting ch (s.core.dropCall k) = awaiting ch s.core := by
      simp [awaiting, State.dropCall, herase, honly, hheld]
    refine h.advance none honly herase (.inl hrunning) rfl (fun d hd => by cases hd) rfl
      (by rw [pipeline_congr hawaiting rfl rfl]) ?_
    rintro (⟨d, hd, -⟩ | hrun)
    · simp [State.dropCall, herase] at hd
    · exact absurd hrunning hrun
  · have hours := (ours_of_not_mine hc hmine).1
    refine h.frame hours rfl (.inl rfl) rfl (pipeline_congr ?_ rfl rfl) fun _ _ hold => hold
    simp only [awaiting, State.dropCall, hours]

theorem InLane.handOver (hp : c.progress = .immediate) :
    InLane ch ⟨{ s.core.dropCall k with handed := s.core.handed ++ [(c.ch, c.pub)] },
      s.running ++ [(c.ch, c.pub)]⟩ := by
  have hunfold : pipeline ch { s.core.dropCall k with
      handed := s.core.handed ++ [(c.ch, c.pub)] } =
        lane ch s.core.handed ++ lane ch [(c.ch, c.pub)] ++ pending ch s.core ++
          awaiting ch (s.core.dropCall k) := by
    rw [← lane_append]
    rfl
  by_cases hmine : Mine ch (c.ch, c.pub)
  · obtain ⟨honly, hrunning, herase, -⟩ := h.alone hc hmine
    have hquiet : QuietOn ch s.core := h.quiet (.inl ⟨c, by simp [honly], hp⟩)
    have hsame : pipeline ch { s.core.dropCall k with
        handed := s.core.handed ++ [(c.ch, c.pub)] } = pipeline ch s.core := by
      have hheld : c.held = [(c.ch, c.pub)] := by simp [Call.held, hp]
      rw [hunfold, pipeline, pending_of_quiet hquiet, lane_of_mine hmine]
      simp [awaiting, State.dropCall, herase, honly, hheld]
    refine h.advance none honly herase (.inr ⟨rfl, ?_⟩) rfl (fun d hd => by cases hd) rfl
      (by rw [hsame]) fun _ => hquiet
    simp [lane_append, hrunning, lane_of_mine hmine]
  · have hours := (ours_of_not_mine hc hmine).1
    refine h.frame hours ?_ (.inl rfl) rfl ?_ fun _ _ hold => hold
    · simp [lane_append, lane_of_not_mine hmine]
    · rw [hunfold, lane_of_not_mine hmine, append_nil, awaiting, State.dropCall, hours]
      rfl

theorem InLane.buffered (hs : Shape s.core) (hp : c.progress = .appending i) :
    InLane ch ⟨(s.core.setAcc i ((s.core.pool i).push c.pub)).setCall k c (.notifying i),
      s.running⟩ := by
  have hmem : c ∈ s.core.calls := mem_of_getElem? hc
  have hacc : c.progress.acc = some i := by rw [hp]; rfl
  obtain ⟨-, hch⟩ := hs.wf.targets c hmem i hacc
  have hpush : ((s.core.pool i).push c.pub).ch = c.ch := hch
  have hunfold : pipeline ch ((s.core.setAcc i ((s.core.pool i).push c.pub)).setCall k c
      (.notifying i)) = lane ch s.core.handed ++
        pending ch (s.core.setAcc i ((s.core.pool i).push c.pub)) ++
        awaiting ch (s.core.setCall k c (.notifying i)) := rfl
  by_cases hmine : Mine ch (c.ch, c.pub)
  · obtain ⟨honly, hrunning, -, hset⟩ := h.alone hc hmine
    refine h.advance (some { c with progress := .notifying i }) honly (hset _)
      (.inl hrunning) rfl ?_ rfl ?_ ?_
    · intro d hd
      cases hd
      exact .inr hacc.symm
    · have hnone : awaiting ch (s.core.setCall k c (.notifying i)) = [] := by
        simp [awaiting, State.setCall, hset, Call.held]
      have hown : awaiting ch s.core = [c.pub.offset] := by
        simp [awaiting, honly, Call.held, hp]
      rw [hunfold, hnone, append_nil, pipeline, hown, append_assoc, pending_setAcc,
        contents_push]
      refine (List.Sublist.refl _).append ?_
      split
      case isTrue hregistered =>
        split
        case isTrue => exact nil_sublist _
        case isFalse =>
          rw [hpush, map_append, lane_append, map_singleton, lane_of_mine hmine,
            pending, hregistered, elim_some, hch]
      case isFalse => exact sublist_append_left _ _
    · -- The only call of the channel has nothing left to hand over.
      rintro (⟨d, hd, himmediate⟩ | hrun)
      · simp only [State.setCall, State.setAcc, hset, mem_singleton] at hd
        subst hd
        cases himmediate
      · exact absurd hrunning hrun
  · have hname : c.ch ≠ ch := by
      intro heq
      refine hmine ⟨heq, Nat.pos_of_ne_zero fun hzero => ?_⟩
      have hprogress := hs.numbered c hmem hzero
      rw [hp] at hprogress
      cases hprogress
    have hother : s.core.accs ch ≠ some i := fun hregistered =>
      hname (hch.symm.trans (hs.wf.registered ch i hregistered).2)
    have hours := (ours_of_not_mine hc hmine).2 (.notifying i)
    refine h.frame hours rfl (.inl rfl) rfl ?_ fun j hj hold => ?_
    · rw [hunfold, pending_setAcc, if_neg hother, awaiting, State.setCall, hours]
      rfl
    · have hne : j ≠ i := by
        rintro rfl
        exact hother hj
      rw [State.setCall, pool_setAcc, if_neg hne]
      exact hold

theorem InLane.quiet_of_aimed (hmine : Mine ch (c.ch, c.pub))
    (hi : c.progress.acc = some i) (hquiet : (s.core.pool i).Quiet) : QuietOn ch s.core := by
  intro j hj
  rcases h.aimed c (mem_ours.mpr ⟨mem_of_getElem? hc, hmine⟩) i hi with hsome | hnone
  · cases hsome.symm.trans hj
    exact hquiet
  · rw [hj] at hnone
    cases hnone

theorem InLane.appended (hs : Shape s.core) (hp : c.progress = .appending i) :
    InLane ch ⟨(s.core.setAcc i ((s.core.pool i).push c.pub)).dropCall k, s.running⟩ := by
  -- The call returns as if after a notification.
  have hk : k < s.core.calls.length := (List.getElem?_eq_some_iff.mp hc).1
  have hdropped := (h.buffered hc hs hp).dropCall (k := k)
    (c := { c with progress := .notifying i }) (by simp [State.setCall, State.setAcc, hk]) rfl
  simpa [State.dropCall, State.setCall, State.setAcc, eraseIdx_set_eq] using hdropped

theorem InLane.proceeds (hs : Shape s.core) {t : State β} (hstep : Proceeds s.core k c t) :
    InLane ch ⟨t, s.running ++ if c.progress = .immediate then [(c.ch, c.pub)] else []⟩ := by
  have hlt {i : Nat} (hacc : c.progress.acc = some i) : i < s.core.created :=
    (hs.wf.targets c (mem_of_getElem? hc) i hacc).1
  have hdirect {i : Nat} (hheld : Call.held { c with progress := .immediate } = c.held)
      (hacc : c.progress.acc = some i) (hdrained : (s.core.pool i).closed = true ∨
        (s.core.pool i).buf = [] ∧ (s.core.pool i).inFlight = 0) :
      InLane ch ⟨s.core.setCall k c .immediate, s.running⟩ :=
    h.setCall hc (.inl rfl) hheld fun _ hmine => h.quiet_of_aimed hc hmine hacc
      (quiet_of_drained (hs.wf.sane i (hlt hacc)) hdrained)
  cases hstep with
  | immediate hp =>
    rw [if_pos hp]
    exact h.handOver hc hp
  | drain i hp =>
    have hacc : c.progress.acc = some i := congrArg Progress.acc hp
    rw [if_neg (by simp [hp]), append_nil]
    exact (h.setFlags hs (hlt hacc) (a := { s.core.pool i with flushNow := true }) rfl rfl
      rfl).setCall hc (.inr hacc.symm) (by simp [Call.held, hp])
      nofun
  | wake i hp hdrained =>
    rw [if_neg (by simp [hp]), append_nil]
    exact hdirect (by simp [Call.held, hp]) (congrArg Progress.acc hp) hdrained
  | divert i hp hclosed =>
    rw [if_neg (by simp [hp]), append_nil]
    exact hdirect (by simp [Call.held, hp]) (congrArg Progress.acc hp) (.inl hclosed)
  | buffer i hp =>
    rw [if_neg (by simp [hp]), append_nil]
    exact h.buffered hc hs hp
  | append i hp =>
    rw [if_neg (by simp [hp]), append_nil]
    exact h.appended hc hs hp
  | notify i hp =>
    rw [if_neg (by simp [hp]), append_nil]
    exact (h.setFlags hs (hlt (congrArg Progress.acc hp))
      (a := { s.core.pool i with notify := true }) rfl rfl rfl).dropCall hc
      (by simp [Call.held, hp])

end

def Lawful (ch : String) (s : Timed β) : Prop :=
  Shape s.core ∧ InLane ch s

theorem lawful_step (h : Lawful ch s) {e : Event β} (hserial : Serial ch s e)
    (hdirect : DirectQuiet ch s e) (hstep : s.step e = some t) : Lawful ch t := by
  obtain ⟨hs, h⟩ := h
  cases e with
  | returned k =>
    simp only [Timed.step] at hstep
    split_ifs at hstep
    cases hstep
    exact ⟨hs, h.returned k⟩
  | action a =>
    obtain ⟨core, hcore, rfl⟩ := map_eq_some_iff.mp hstep
    refine ⟨shape_step hs hcore, ?_⟩
    cases a with
    | deliver name pub enabled subCount =>
      cases hcore
      simp only [started, append_nil]
      exact h.deliver hs hserial hdirect
    | proceed k =>
      obtain ⟨c, hc, hproceed⟩ := bind_eq_some_iff.mp hcore
      simp only [started, hc]
      exact h.proceeds hc hs (proceeds_of_proceed hproceed)
    | flusher i =>
      simp only [Batcher.step] at hcore
      simp only [started, append_nil]
      split_ifs at hcore with hi
      exact h.flusherStep hs hi hcore
    | signal i sig =>
      simp only [Batcher.step] at hcore
      simp only [started, append_nil]
      split_ifs at hcore with hi
      exact h.signal hs hi hcore

theorem registered_of_busy {s : State β} (hs : Shape s) (hi : i < s.created)
    (hch : (s.pool i).ch = ch)
    (hbusy : (s.pool i).flusher = .returning ∨ ∃ batch, (s.pool i).flusher = .broadcasting batch) :
    s.accs ch = some i ∧ ¬(s.pool i).Quiet := by
  have hlive : (s.pool i).reaped = false := by
    unfold reaped
    rcases hbusy with hf | ⟨batch, hf⟩ <;> simp [hf]
  refine ⟨hch ▸ hs.registered i hi hlive, fun hquiet => ?_⟩
  obtain ⟨hreturning, hbroadcasting⟩ := Quiet.not_busy (hs.wf.sane i hi) hquiet
  rcases hbusy with hf | ⟨batch, hf⟩
  · exact hreturning hf
  · exact hbroadcasting batch hf

theorem exclusive_of_lawful (h : Lawful ch s) (e : Event β) : Exclusive ch s e := by
  obtain ⟨hs, h⟩ := h
  cases e with
  | returned => trivial
  | action a =>
    cases a with
    | deliver | signal => trivial
    | proceed k =>
      intro c hc hp hmine
      obtain ⟨honly, hrunning, -, -⟩ := h.alone hc hmine
      refine ⟨hrunning, fun i hi hch hreturning => ?_⟩
      obtain ⟨hregistered, hbusy⟩ := registered_of_busy hs hi hch (.inl hreturning)
      exact hbusy (h.quiet (.inl ⟨c, by simp [honly], hp⟩) i hregistered)
    | flusher i =>
      intro hi hch batch hbroadcasting
      obtain ⟨hregistered, hbusy⟩ := registered_of_busy hs hi hch (.inr ⟨batch, hbroadcasting⟩)
      refine ⟨?_, fun j hj hchj hreturning => ?_⟩
      · by_contra hrun
        exact hbusy (h.quiet (.inr hrun) i hregistered)
      · obtain ⟨hregistered', -⟩ := registered_of_busy hs hj hchj (.inl hreturning)
        cases hregistered.symm.trans hregistered'
        rw [hbroadcasting] at hreturning
        cases hreturning

end Lane

section Order
variable {ch : String} {s : Timed β}

/-- If the channel's publications are passed in order and the direct path is taken only while the
channel's accumulator is quiet, then they are handed over in order, one hand-over at a time. -/
theorem batcher_order {settings : Settings} {es : List (Event β)}
    (hrun : Timed.run (Timed.start settings) es = some s)
    (hok : Transition.Along Timed.step (fun s e => Serial ch s e ∧ DirectQuiet ch s e)
      (Timed.start settings) es) :
    (lane ch s.core.handed).Pairwise (· < ·) ∧
      Transition.Along Timed.step (Exclusive ch) (Timed.start settings) es := by
  have hstart : Lawful ch (Timed.start settings : Timed β) :=
    ⟨shape_start settings, inLane_start settings⟩
  have hnext (s : Timed β) (e : Event β) (t : Timed β) (h : Lawful ch s)
      (hok : Serial ch s e ∧ DirectQuiet ch s e) (hstep : s.step e = some t) : Lawful ch t :=
    lawful_step h hok.1 hok.2 hstep
  obtain ⟨-, hlane⟩ := Transition.invariant_along hstart hnext hrun hok
  refine ⟨?_, Transition.along_of_invariant hnext (fun s e h _ => exclusive_of_lawful h e)
    hstart hok⟩
  have hordered := hlane.ordered
  rw [pipeline, append_assoc] at hordered
  exact (pairwise_append.mp hordered).1

abbrev pairStart : Timed Unit :=
  .start ⟨2, 10, 100⟩

def bufferedFirst : List (Event Unit) :=
  [.action (.deliver "room" (note 1) true 5), .action (.proceed 0), .action (.proceed 0)]

def directSecond : List (Event Unit) :=
  [.action (.deliver "room" (note 2) true 1), .action (.proceed 0), .returned 0]

def windowFlush : List (Event Unit) :=
  [.action (.signal 0 .timer), .action (.flusher 0), .action (.flusher 0), .action (.flusher 0),
    .action (.flusher 0)]

theorem batcher_order_flushed :
    ∃ s, Timed.run pairStart (bufferedFirst ++ windowFlush ++ directSecond) = some s ∧
      lane "room" s.core.handed = [1, 2] ∧ (lane "room" s.core.handed).Pairwise (· < ·) := by
  have hok : Transition.Along Timed.step (fun s e => Serial "room" s e ∧ DirectQuiet "room" s e)
      pairStart (bufferedFirst ++ windowFlush ++ directSecond) := by decide
  exact ⟨_, rfl, by decide, (batcher_order rfl hok).1⟩

theorem batcher_order_overtaken :
    ∃ s, Timed.run pairStart (bufferedFirst ++ directSecond ++ windowFlush) = some s ∧
      Transition.Along Timed.step (Serial "room") pairStart
        (bufferedFirst ++ directSecond ++ windowFlush) ∧
      lane "room" s.core.handed = [2, 1] :=
  ⟨_, rfl, by decide, by decide⟩

end Order

end MessageLoop.Batcher
