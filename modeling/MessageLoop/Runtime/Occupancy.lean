import MessageLoop.Lib.Locks
import MessageLoop.Lib.Transition
import Mathlib.Data.List.Nodup

/-!
Occupancy events at one node: `onOccupancy` and `deliverPresenceEvent`
(`internal/runtime/node.go`).

An event passes if its generation is above the last one applied for its channel and session, which
is checked and noted under a lock. The fan-out to the covered sessions comes after the lock is
released, one send a step; calls for different events run concurrently. The recipients found by the
hub and the outcome of each send are choices of the environment.
-/

namespace MessageLoop.Occupancy

open List

inductive PresenceAction where
  | join
  | leave
  deriving DecidableEq, Repr

/-- Information that is missing has the empty session ID. -/
structure PresenceInfo where
  sessionID : String
  userID : String
  clientID : String
  connectedAt : Int
  deriving DecidableEq, Repr

structure PresenceEvent where
  channel : String
  action : PresenceAction
  info : PresenceInfo
  gen : Nat
  deriving DecidableEq, Repr

abbrev Subject := String × String

def PresenceEvent.subject (e : PresenceEvent) : Subject :=
  (e.channel, e.info.sessionID)

structure OccupancyEvent where
  gen : Nat
  event : Option PresenceEvent
  deriving DecidableEq, Repr

/-- How a call of `onOccupancy` ends; `sent` are the sessions it has enqueued the event to. -/
inductive Result where
  | dropped
  | late
  | delivered (sent : List String)
  deriving DecidableEq, Repr

inductive Pc where
  | check
  | recipients
  | sending (parallel : Bool) (todo sent : List String)
  | returned (result : Result)
  deriving DecidableEq, Repr

structure Call where
  channel : String
  evt : OccupancyEvent
  pc : Pc
  deriving DecidableEq, Repr

open Call

def Call.event (c : Call) : Option PresenceEvent :=
  match c.evt.event with
  | none => none
  | some e =>
    if c.evt.gen = 0 ∨ e.info.sessionID = "" then none
    else some { e with channel := c.channel, gen := c.evt.gen }

def Call.delivering (c : Call) : Bool :=
  match c.pc with
  | .recipients | .sending .. => true
  | _ => false

structure State where
  lastApplied : Subject → Option Nat
  queues : String → List PresenceEvent
  calls : List Call

open State

structure Recipient where
  sessionID : String
  ephemeral : Bool
  deriving DecidableEq, Repr

/-- What the environment chooses in a step of a call: the recipients the hub finds, which of the
outstanding sends comes next, and whether it succeeds. -/
structure Env where
  recipients : List Recipient
  next : Nat
  ok : Bool
  deriving DecidableEq, Repr

inductive Action where
  | onOccupancy (channel : String) (evt : OccupancyEvent)
  | call (k : Nat) (env : Env)
  deriving DecidableEq, Repr

def presenceParallelThreshold : Nat := 8

namespace State

def init : State := ⟨fun _ => none, fun _ => [], []⟩

def late (s : State) (e : PresenceEvent) : Bool :=
  match s.lastApplied e.subject with
  | some last => e.gen ≤ last
  | none => false

def apply (s : State) (e : PresenceEvent) : State :=
  { s with lastApplied := Function.update s.lastApplied e.subject (some e.gen) }

def enqueue (s : State) (sessionID : String) (e : PresenceEvent) : State :=
  { s with queues := Function.update s.queues sessionID (s.queues sessionID ++ [e]) }

def received (s : State) (sessionID : String) (subject : Subject) : List PresenceEvent :=
  (s.queues sessionID).filter (·.subject = subject)

/-- The sessions an event goes to: not those with an ephemeral subscription only, and not the
session it is about. -/
def targets (e : PresenceEvent) (recipients : List Recipient) : List String :=
  (recipients.filter fun r => !r.ephemeral && r.sessionID ≠ e.info.sessionID).map
    Recipient.sessionID

def setPc (s : State) (k : Nat) (c : Call) (pc : Pc) : State :=
  { s with calls := s.calls.set k { c with pc := pc } }

/-- One step of a call. A small fan-out is serial, a larger one sends in any order. -/
def advance (s : State) (c : Call) (env : Env) : Option (State × Pc) :=
  match c.pc, c.event with
  | .check, none => some (s, .returned .dropped)
  | .check, some e =>
    if s.late e then some (s, .returned .late) else some (s.apply e, .recipients)
  | .recipients, some e =>
    if (env.recipients.map Recipient.sessionID).Nodup then
      some (s, .sending (presenceParallelThreshold < env.recipients.length)
        (targets e env.recipients) [])
    else none
  | .sending _ [] sent, _ => some (s, .returned (.delivered sent))
  | .sending parallel todo sent, some e =>
    if parallel = false ∧ env.next ≠ 0 then none
    else todo[env.next]?.map fun r =>
      if env.ok then (s.enqueue r e, .sending parallel (todo.eraseIdx env.next) (sent ++ [r]))
      else (s, .sending parallel (todo.eraseIdx env.next) sent)
  | _, _ => none

end State

def step (s : State) : Action → Option State
  | .onOccupancy channel evt => some { s with calls := s.calls ++ [⟨channel, evt, .check⟩] }
  | .call k env =>
    s.calls[k]?.bind fun c =>
      (s.advance c env).map fun r => r.1.setPc k c r.2

abbrev run : State → List Action → Option State :=
  Transition.run step

/-- No event passes the check while an earlier one about its subject is still being delivered. -/
def Serial (s : State) : Action → Prop
  | .call k _ => ∀ c ∈ s.calls[k]?, c.pc = .check → ∀ e ∈ c.event, s.late e = false →
      ∀ d ∈ s.calls, d.delivering → ∀ f ∈ d.event, f.subject ≠ e.subject
  | .onOccupancy .. => True

instance (s : State) : (a : Action) → Decidable (Serial s a)
  | .call .. => inferInstanceAs (Decidable (∀ c ∈ _, _ → ∀ e ∈ _, _ → ∀ d ∈ _, _ → ∀ f ∈ _, _))
  | .onOccupancy .. => isTrue trivial

section Inversion

/-- What one step of a call does, one constructor for each branch of the code. -/
inductive Advances (s : State) (c : Call) : State → Pc → Prop
  | drop (hpc : c.pc = .check) (hevent : c.event = none) : Advances s c s (.returned .dropped)
  | late {e : PresenceEvent} (hpc : c.pc = .check) (hevent : c.event = some e)
      (hlate : s.late e = true) : Advances s c s (.returned .late)
  | pass {e : PresenceEvent} (hpc : c.pc = .check) (hevent : c.event = some e)
      (hlate : s.late e = false) : Advances s c (s.apply e) .recipients
  | find {parallel : Bool} {todo : List String} (hpc : c.pc = .recipients) (hnodup : todo.Nodup) :
      Advances s c s (.sending parallel todo [])
  | send {e : PresenceEvent} {parallel : Bool} {todo sent : List String} {i : Nat} {r : String}
      (hpc : c.pc = .sending parallel todo sent) (hevent : c.event = some e)
      (hr : todo[i]? = some r) :
      Advances s c (s.enqueue r e) (.sending parallel (todo.eraseIdx i) (sent ++ [r]))
  | fail {e : PresenceEvent} {parallel : Bool} {todo sent : List String} {i : Nat}
      (hpc : c.pc = .sending parallel todo sent) (hevent : c.event = some e) :
      Advances s c s (.sending parallel (todo.eraseIdx i) sent)
  | finish {parallel : Bool} {sent : List String} (hpc : c.pc = .sending parallel [] sent) :
      Advances s c s (.returned (.delivered sent))

theorem nodup_targets (e : PresenceEvent) {recipients : List Recipient}
    (h : (recipients.map Recipient.sessionID).Nodup) : (targets e recipients).Nodup :=
  h.sublist (filter_sublist.map _)

theorem advances_of_advance {s t : State} {c : Call} {env : Env} {pc : Pc}
    (h : s.advance c env = some (t, pc)) : Advances s c t pc := by
  unfold advance at h
  split at h
  · next hpc hevent =>
    cases h
    exact .drop hpc hevent
  · next e hpc hevent =>
    split_ifs at h with hlate
    · cases h
      exact .late hpc hevent hlate
    · cases h
      exact .pass hpc hevent (by simpa using hlate)
  · next e hpc hevent =>
    split_ifs at h with hnodup
    cases h
    exact .find hpc (nodup_targets e hnodup)
  · next hpc =>
    cases h
    exact .finish hpc
  · next parallel todo sent e _ hpc hevent =>
    split_ifs at h with hserial hok
    · obtain ⟨r, hr, hsent⟩ := Option.map_eq_some_iff.mp h
      cases hsent
      exact .send hpc hevent hr
    · obtain ⟨r, -, hfailed⟩ := Option.map_eq_some_iff.mp h
      cases hfailed
      exact .fail hpc hevent
  · cases h

theorem step_cases {s t : State} {a : Action} (h : step s a = some t) :
    (∃ channel evt, t = { s with calls := s.calls ++ [⟨channel, evt, .check⟩] }) ∨
    ∃ k env c w pc, a = .call k env ∧ s.calls[k]? = some c ∧ Advances s c w pc ∧
      t = w.setPc k c pc := by
  cases a with
  | onOccupancy channel evt =>
    cases h
    exact .inl ⟨channel, evt, rfl⟩
  | call k env =>
    obtain ⟨c, ⟨w, pc⟩, hc, hw, rfl⟩ := Option.bind_map_eq_some h
    exact .inr ⟨k, env, c, w, pc, rfl, hc, advances_of_advance hw, rfl⟩

end Inversion

section Order
variable {s w : State} {c : Call} {e f : PresenceEvent} {r q : String} {u : Subject}
variable {k : Nat} {pc : Pc}

def Call.Delivers (c : Call) (u : Subject) : Prop :=
  c.delivering ∧ ∃ e, c.event = some e ∧ e.subject = u

def Call.Awaits (c : Call) (r : String) : Prop :=
  match c.pc with
  | .recipients => True
  | .sending _ todo _ => r ∈ todo
  | _ => False

def Call.sent (c : Call) : List String :=
  match c.pc with
  | .sending _ _ sent | .returned (.delivered sent) => sent
  | _ => []

def Call.passed (c : Call) : Bool :=
  match c.pc with
  | .recipients | .sending .. | .returned (.delivered _) => true
  | _ => false

def Pc.outstanding : Pc → List String
  | .sending _ todo _ => todo
  | _ => []

/-- The generation of the event is at most the last one applied for its subject. -/
def State.Noted (s : State) (e : PresenceEvent) : Prop :=
  ∃ last, s.lastApplied e.subject = some last ∧ e.gen ≤ last

structure Standing (s : State) (c : Call) (e : PresenceEvent) : Prop where
  noted : c.pc ≠ .check → s.Noted e
  current : c.delivering → s.lastApplied e.subject = some e.gen
  ahead : ∀ r, c.Awaits r → ∀ f ∈ s.queues r, f.subject = e.subject → f.gen < e.gen
  nodup : c.pc.outstanding.Nodup
  sent : ∀ r ∈ c.sent, e ∈ s.queues r

structure Ordered (s : State) : Prop where
  sorted : ∀ r u, (s.received r u).Pairwise fun e f => e.gen < f.gen
  noted : ∀ r, ∀ e ∈ s.queues r, s.Noted e
  top : ∀ u last, s.lastApplied u = some last →
    ∃ c ∈ s.calls, c.passed ∧ ∃ e, c.event = some e ∧ e.subject = u ∧ e.gen = last
  exclusive : Locks.Exclusive Call.Delivers s.calls
  standing : ∀ (k : Nat) c e, s.calls[k]? = some c → c.event = some e → Standing s c e

theorem Call.Awaits.delivering (h : c.Awaits r) : c.delivering := by
  unfold Call.Awaits at h
  unfold Call.delivering
  split at h <;> simp_all

theorem mem_enqueue :
    f ∈ (s.enqueue r e).queues q ↔ f ∈ s.queues q ∨ q = r ∧ f = e := by
  by_cases hq : q = r
  · subst hq
    simp [enqueue]
  · simp [enqueue, hq]

theorem received_enqueue :
    (s.enqueue r e).received q u =
      s.received q u ++ if q = r ∧ e.subject = u then [e] else [] := by
  by_cases hq : q = r
  · subst hq
    by_cases hu : e.subject = u <;> simp [received, enqueue, hu]
  · simp [received, enqueue, hq]

theorem lt_of_not_late (h : s.late e = false) {last : Nat}
    (hlast : s.lastApplied e.subject = some last) : last < e.gen := by
  simpa [late, hlast] using h

theorem noted_of_late (h : s.late e = true) : s.Noted e := by
  cases hlast : s.lastApplied e.subject with
  | none => simp [late, hlast] at h
  | some last => exact ⟨last, hlast, by simpa [late, hlast] using h⟩

theorem State.Noted.apply (hf : s.Noted f) (h : s.late e = false) : (s.apply e).Noted f := by
  obtain ⟨last, hlast, hle⟩ := hf
  by_cases hu : f.subject = e.subject
  · rw [hu] at hlast
    have hlt := lt_of_not_late h hlast
    exact ⟨e.gen, by simp [State.apply, hu], by omega⟩
  · exact ⟨last, by simpa [State.apply, hu] using hlast, hle⟩

theorem Standing.enqueue (h : Standing s c f) (hother : c.delivering → f.subject ≠ e.subject) :
    Standing (s.enqueue r e) c f where
  noted := h.noted
  current := h.current
  ahead := by
    intro q hq x hx hsubject
    obtain hx | ⟨-, rfl⟩ := mem_enqueue.mp hx
    · exact h.ahead q hq x hx hsubject
    · exact absurd hsubject.symm (hother hq.delivering)
  nodup := h.nodup
  sent := fun q hq => mem_enqueue.mpr (.inl (h.sent q hq))

theorem Standing.apply (h : Standing s c f) (hlate : s.late e = false)
    (hother : c.delivering → f.subject ≠ e.subject) : Standing (s.apply e) c f where
  noted := fun hpc => (h.noted hpc).apply hlate
  current := by
    intro hd
    simpa [State.apply, hother hd] using h.current hd
  ahead := h.ahead
  nodup := h.nodup
  sent := h.sent

structure Moved (s : State) (k : Nat) (c : Call) (w : State) (pc : Pc) : Prop where
  calls : w.calls = s.calls
  sorted : ∀ r u, (w.received r u).Pairwise fun e f => e.gen < f.gen
  noted : ∀ r, ∀ e ∈ w.queues r, w.Noted e
  applied : ∀ u last, w.lastApplied u = some last → s.lastApplied u = some last ∨
    passed { c with pc := pc } ∧ ∃ e, c.event = some e ∧ e.subject = u ∧ e.gen = last
  passed : c.passed → passed { c with pc := pc }
  exclusive : ∀ u, Call.Delivers { c with pc := pc } u →
    c.Delivers u ∨ ∀ d ∈ s.calls, ¬ d.Delivers u
  own : ∀ e, c.event = some e → Standing w { c with pc := pc } e
  others : ∀ (j : Nat) d f, j ≠ k → s.calls[j]? = some d → d.event = some f → Standing w d f

theorem Standing.setPc {d : Call} (h : Standing w d e) : Standing (w.setPc k c pc) d e :=
  { h with }

section
variable (h : Ordered s)
include h

theorem Ordered.moved (hc : s.calls[k]? = some c)
    (hmoved : Moved s k c w pc) : Ordered (w.setPc k c pc) := by
  have hcalls : (w.setPc k c pc).calls = s.calls.set k { c with pc := pc } := by
    rw [← hmoved.calls]
    rfl
  refine ⟨hmoved.sorted, hmoved.noted, ?_, ?_, ?_⟩
  · intro u last hlast
    rw [hcalls]
    rcases hmoved.applied u last hlast with hold | hnew
    · refine Locks.exists_mem_set hc ?_ (h.top u last hold)
      exact fun ⟨hpassed, hevent⟩ => ⟨hmoved.passed hpassed, hevent⟩
    · exact ⟨_, Locks.mem_set_self hc, hnew⟩
  · rw [hcalls]
    exact h.exclusive.set hc hmoved.exclusive
  · intro j d e hj he
    rw [hcalls] at hj
    rcases Locks.getElem?_set_cases hj with ⟨-, rfl⟩ | ⟨hjk, hj⟩
    · exact (hmoved.own e he).setPc
    · exact (hmoved.others j d e hjk hj he).setPc

theorem Ordered.still (hc : s.calls[k]? = some c)
    (hpassed : c.passed → passed { c with pc := pc })
    (hdelivering : delivering { c with pc := pc } → c.delivering)
    (hnoted : ∀ e, c.event = some e → s.Noted e)
    (hawaits : ∀ r, Call.Awaits { c with pc := pc } r → c.Awaits r)
    (hnodup : pc.outstanding.Nodup)
    (hsent : sent { c with pc := pc } ⊆ c.sent) : Moved s k c s pc where
  calls := rfl
  sorted := h.sorted
  noted := h.noted
  applied := fun _ _ hlast => .inl hlast
  passed := hpassed
  exclusive := fun u hd => .inl ⟨hdelivering hd.1, hd.2⟩
  own := by
    intro e he
    have hstanding := h.standing k c e hc he
    exact ⟨fun _ => hnoted e he, fun hd => hstanding.current (hdelivering hd),
      fun r hr => hstanding.ahead r (hawaits r hr), hnodup,
      fun r hr => hstanding.sent r (hsent hr)⟩
  others := fun j d f _ hj hf => h.standing j d f hj hf

theorem Ordered.apply (he : c.event = some e) (hlate : s.late e = false)
    (hserial : ∀ d ∈ s.calls, d.delivering → ∀ f ∈ d.event, f.subject ≠ e.subject) :
    Moved s k c (s.apply e) .recipients := by
  have hlast : (s.apply e).lastApplied e.subject = some e.gen := by simp [State.apply]
  refine ⟨rfl, h.sorted, fun r f hf => (h.noted r f hf).apply hlate, ?_, ?_, ?_, ?_, ?_⟩
  · intro u last hu
    by_cases hsubject : u = e.subject
    · subst hsubject
      exact .inr ⟨rfl, e, he, rfl, by simpa [hlast] using hu⟩
    · exact .inl (by simpa [State.apply, hsubject] using hu)
  · intro _
    rfl
  · rintro u ⟨-, e', he', rfl⟩
    cases he.symm.trans he'
    exact .inr fun d hd ⟨hdelivering, f, hf, hsubject⟩ => hserial d hd hdelivering f hf hsubject
  · intro e' he'
    cases he.symm.trans he'
    refine ⟨fun _ => ⟨e.gen, hlast, Nat.le_refl _⟩, fun _ => hlast, ?_, nodup_nil, ?_⟩
    · intro r _ f hf hsubject
      obtain ⟨last, hold, hle⟩ := h.noted r f hf
      rw [hsubject] at hold
      exact Nat.lt_of_le_of_lt hle (lt_of_not_late hlate hold)
    · nofun
  · intro j d f _ hj hf
    exact (h.standing j d f hj hf).apply hlate fun hd =>
      hserial d (mem_of_getElem? hj) hd f hf

theorem Ordered.enqueue {parallel : Bool} {todo sent : List String} {i : Nat}
    (hc : s.calls[k]? = some c) (hpc : c.pc = .sending parallel todo sent) (he : c.event = some e)
    (hr : todo[i]? = some r) :
    Moved s k c (s.enqueue r e) (.sending parallel (todo.eraseIdx i) (sent ++ [r])) := by
  have hd : c.delivering := by simp [delivering, hpc]
  have hstanding := h.standing k c e hc he
  have hnodup : todo.Nodup := by simpa [Pc.outstanding, hpc] using hstanding.nodup
  have hmem : r ∈ todo := mem_of_getElem? hr
  have hahead : ∀ f ∈ s.queues r, f.subject = e.subject → f.gen < e.gen :=
    hstanding.ahead r (by simpa [Call.Awaits, hpc] using hmem)
  refine ⟨rfl, ?_, ?_, fun _ _ hlast => .inl hlast, fun _ => rfl, ?_, ?_, ?_⟩
  · intro q u
    rw [received_enqueue]
    split_ifs with hnew
    · obtain ⟨rfl, rfl⟩ := hnew
      rw [pairwise_append]
      refine ⟨h.sorted q e.subject, pairwise_singleton _ _, ?_⟩
      intro f hf x hx
      obtain rfl := mem_singleton.mp hx
      obtain ⟨hf, hsubject⟩ := mem_filter.mp hf
      exact hahead f hf (by simpa using hsubject)
    · simpa using h.sorted q u
  · intro q f hf
    obtain hf | ⟨-, rfl⟩ := mem_enqueue.mp hf
    · exact h.noted q f hf
    · exact ⟨f.gen, hstanding.current hd, Nat.le_refl _⟩
  · exact fun u hdelivers => .inl ⟨hd, hdelivers.2⟩
  · intro e' he'
    cases he.symm.trans he'
    refine ⟨fun _ => ⟨e.gen, hstanding.current hd, Nat.le_refl _⟩,
      fun _ => hstanding.current hd, ?_, hnodup.sublist (eraseIdx_sublist todo i), ?_⟩
    · intro q hq f hf hsubject
      have hq : q ∈ todo.eraseIdx i := hq
      obtain hf | ⟨rfl, -⟩ := mem_enqueue.mp hf
      · exact hstanding.ahead q (by simpa [Call.Awaits, hpc] using mem_of_mem_eraseIdx hq) f
          hf hsubject
      · obtain ⟨j, hji, hj⟩ := mem_eraseIdx_iff_getElem?.mp hq
        have hlt : j < todo.length := (List.getElem?_eq_some_iff.mp hj).1
        exact absurd ((getElem?_inj hlt hnodup).mp (hj.trans hr.symm)) hji
    · intro q hq
      rcases mem_append.mp (show q ∈ sent ++ [r] from hq) with hq | hq
      · exact mem_enqueue.mpr (.inl (hstanding.sent q (by simpa [Call.sent, hpc] using hq)))
      · exact mem_enqueue.mpr (.inr ⟨mem_singleton.mp hq, rfl⟩)
  · intro j d f hjk hj hf
    refine (h.standing j d f hj hf).enqueue fun hdj hsubject => hjk ?_
    exact h.exclusive j k d c e.subject hj hc ⟨hdj, f, hf, hsubject⟩ ⟨hd, e, he, rfl⟩

omit h in
theorem ordered_init : Ordered .init where
  sorted := fun _ _ => List.Pairwise.nil
  noted := nofun
  top := nofun
  exclusive := Locks.exclusive_nil
  standing := nofun

theorem Ordered.arrive (channel : String) (evt : OccupancyEvent) :
    Ordered { s with calls := s.calls ++ [⟨channel, evt, .check⟩] } := by
  have hcases : ∀ (j : Nat) d, (s.calls ++ [⟨channel, evt, .check⟩])[j]? = some d →
      s.calls[j]? = some d ∨ d.pc = .check := by
    intro j d hj
    rw [getElem?_snoc] at hj
    split_ifs at hj
    · exact .inr (Option.some.inj hj ▸ rfl)
    · exact .inl hj
  have hfresh : ∀ d : Call, d.pc = .check → ¬ d.delivering := by
    intro d hpc
    simp [delivering, hpc]
  refine ⟨h.sorted, h.noted, ?_, ?_, ?_⟩
  · intro u last hlast
    obtain ⟨d, hd, hrest⟩ := h.top u last hlast
    exact ⟨d, mem_append_left _ hd, hrest⟩
  · refine h.exclusive.append fun d hd u hdelivers => hfresh d ?_ hdelivers.1
    rw [mem_singleton.mp hd]
  · intro j d e hj he
    rcases hcases j d hj with hj | hpc
    · exact { h.standing j d e hj he with }
    · refine ⟨fun hne => absurd hpc hne, fun hd => absurd hd (hfresh d hpc), ?_, ?_, ?_⟩
      · intro r hr
        exact absurd hr.delivering (hfresh d hpc)
      · simp [Pc.outstanding, hpc]
      · simp [sent, hpc]

theorem Ordered.moved_of_advances {env : Env} (hc : s.calls[k]? = some c)
    (hserial : Serial s (.call k env)) (hadvances : Advances s c w pc) : Moved s k c w pc := by
  cases hadvances with
  | drop hpc hevent =>
    apply h.still hc <;> simp [passed, delivering, Call.Awaits, sent,
      Pc.outstanding, hpc, hevent]
  | late hpc hevent hlate =>
    refine h.still hc ?_ ?_ ?_ ?_ ?_ ?_
    case refine_3 =>
      intro e' he'
      cases hevent.symm.trans he'
      exact noted_of_late hlate
    all_goals simp [passed, delivering, Call.Awaits, sent, Pc.outstanding, hpc]
  | pass hpc hevent hlate => exact h.apply hevent hlate (hserial c hc hpc _ hevent hlate)
  | find hpc hnodup =>
    refine h.still hc ?_ ?_ ?_ ?_ hnodup ?_
    case refine_3 => exact fun e he => (h.standing k c e hc he).noted (by simp [hpc])
    all_goals simp [passed, delivering, Call.Awaits, sent, hpc]
  | send hpc hevent hr => exact h.enqueue hc hpc hevent hr
  | fail hpc hevent =>
    have hnodup := (h.standing k c _ hc hevent).nodup
    simp only [hpc, Pc.outstanding] at hnodup
    refine h.still hc ?_ ?_ ?_ ?_ (hnodup.sublist (eraseIdx_sublist _ _)) ?_
    case refine_3 => exact fun e he => (h.standing k c e hc he).noted (by simp [hpc])
    case refine_4 =>
      intro r hr
      simpa [Call.Awaits, hpc] using mem_of_mem_eraseIdx hr
    all_goals simp [passed, delivering, sent, hpc]
  | finish hpc =>
    refine h.still hc ?_ ?_ ?_ ?_ ?_ ?_
    case refine_3 => exact fun e he => (h.standing k c e hc he).noted (by simp [hpc])
    all_goals simp [passed, delivering, Call.Awaits, sent, Pc.outstanding, hpc]

theorem Ordered.step {t : State} {a : Action} (hserial : Serial s a)
    (hstep : Occupancy.step s a = some t) : Ordered t := by
  obtain ⟨channel, evt, rfl⟩ | ⟨k, env, c, w, pc, rfl, hc, hadvances, rfl⟩ := step_cases hstep
  · exact h.arrive channel evt
  · exact h.moved hc (h.moved_of_advances hc hserial hadvances)

omit h in
theorem getLast?_of_highest {events : List PresenceEvent}
    (hsorted : events.Pairwise fun e f => e.gen < f.gen) (he : e ∈ events)
    (hhighest : ∀ f ∈ events, f.gen ≤ e.gen) : events.getLast? = some e := by
  obtain ⟨before, after, rfl⟩ := append_of_mem he
  cases after with
  | nil => simp
  | cons f after =>
    have hlt : e.gen < f.gen := by
      have htail := (pairwise_append.mp hsorted).2.1
      exact rel_of_pairwise_cons htail mem_cons_self
    exact absurd (hhighest f (by simp)) (Nat.not_le_of_lt hlt)

/-- When all calls are back, the event with the highest generation about a subject is the last one
about it at every session it was sent to. -/
theorem Ordered.highest_last
    (hdone : ∀ c ∈ s.calls, ∃ result, c.pc = .returned result) (hc : c ∈ s.calls) (he : c.event = some e) :
    ∃ d ∈ s.calls, ∃ f sent, d.event = some f ∧ d.pc = .returned (.delivered sent) ∧
      f.subject = e.subject ∧
      (∀ d' ∈ s.calls, ∀ f' ∈ d'.event, f'.subject = e.subject → f'.gen ≤ f.gen) ∧
      ∀ r ∈ sent, (s.received r e.subject).getLast? = some f := by
  have hnoted : ∀ d ∈ s.calls, ∀ f ∈ d.event, s.Noted f := by
    intro d hd f hf
    obtain ⟨j, hj⟩ := mem_iff_getElem?.mp hd
    obtain ⟨result, hresult⟩ := hdone d hd
    exact (h.standing j d f hj hf).noted (by simp [hresult])
  obtain ⟨last, hlast, -⟩ := hnoted c hc e he
  obtain ⟨d, hd, hpassed, f, hf, hsubject, rfl⟩ := h.top _ last hlast
  obtain ⟨sent, hsent⟩ : ∃ sent, d.pc = .returned (.delivered sent) := by
    obtain ⟨result, hresult⟩ := hdone d hd
    cases result with
    | delivered sent => exact ⟨sent, hresult⟩
    | dropped | late => simp [passed, hresult] at hpassed
  have hhighest : ∀ f' : PresenceEvent, s.Noted f' → f'.subject = e.subject → f'.gen ≤ f.gen := by
    rintro f' ⟨last', hlast', hle⟩ hsubject'
    rw [hsubject', hlast] at hlast'
    rwa [Option.some.inj hlast']
  refine ⟨d, hd, f, sent, hf, hsent, hsubject, ?_, ?_⟩
  · intro d' hd' f' hf' hsubject'
    exact hhighest f' (hnoted d' hd' f' hf') hsubject'
  · intro r hr
    obtain ⟨j, hj⟩ := mem_iff_getElem?.mp hd
    have hqueued : f ∈ s.queues r :=
      (h.standing j d f hj hf).sent r (by simpa [Call.sent, hsent] using hr)
    have hreceived : f ∈ s.received r e.subject :=
      mem_filter.mpr ⟨hqueued, by simpa using hsubject⟩
    refine getLast?_of_highest (h.sorted r _) hreceived fun f' hf' => ?_
    obtain ⟨hf', hsubject'⟩ := mem_filter.mp hf'
    exact hhighest f' (h.noted r f' hf') (by simpa using hsubject')

end

/-- If events about one subject are delivered one after the other, every session is sent them with
increasing generations, and the last one it is sent is the one with the highest generation. -/
theorem received_increasing {as : List Action} (hrun : run .init as = some s)
    (hserial : Transition.Along step Serial .init as) :
    (∀ r u, ((s.received r u).map PresenceEvent.gen).Pairwise (· < ·)) ∧
    ((∀ c ∈ s.calls, ∃ result, c.pc = .returned result) → ∀ c ∈ s.calls, ∀ e, c.event = some e →
      ∃ d ∈ s.calls, ∃ f sent, d.event = some f ∧ d.pc = .returned (.delivered sent) ∧
        f.subject = e.subject ∧
        (∀ d' ∈ s.calls, ∀ f' ∈ d'.event, f'.subject = e.subject → f'.gen ≤ f.gen) ∧
        ∀ r ∈ sent, (s.received r e.subject).getLast? = some f) := by
  have h : Ordered s := Transition.invariant_along ordered_init
    (fun s a t hs hok hstep => hs.step hok hstep) hrun hserial
  exact ⟨fun r u => pairwise_map.mpr (h.sorted r u),
    fun hdone c hc e he => h.highest_last hdone hc he⟩

end Order

section Runs

def joinsAndLeaves : List Action :=
  [.onOccupancy "c" ⟨1, some ⟨"c", .join, ⟨"s", "u", "", 0⟩, 0⟩⟩,
   .onOccupancy "c" ⟨2, some ⟨"c", .leave, ⟨"s", "u", "", 0⟩, 0⟩⟩]

def delivers (k : Nat) : List Action :=
  List.replicate 3 (.call k ⟨[⟨"r", false⟩, ⟨"s", false⟩], 0, true⟩)

def checks (k : Nat) : Action :=
  .call k ⟨[], 0, true⟩

def inTurn : List Action :=
  joinsAndLeaves ++ checks 0 :: delivers 0 ++ checks 1 :: delivers 1

theorem received_increasing_inTurn : ∃ s, run .init inTurn = some s ∧
    (s.received "r" ("c", "s")).map PresenceEvent.gen = [1, 2] ∧
    ((s.received "r" ("c", "s")).map PresenceEvent.gen).Pairwise (· < ·) := by
  have hgens : (run .init inTurn).map
      (fun s => (s.received "r" ("c", "s")).map PresenceEvent.gen) = some [1, 2] := by
    decide +kernel
  obtain ⟨s, hs, hgens⟩ := Option.map_eq_some_iff.mp hgens
  have hserial : Transition.Along step Serial .init inTurn := by decide +kernel
  exact ⟨s, hs, hgens, (received_increasing hs hserial).1 "r" ("c", "s")⟩

/-- Both events pass the check before the first is delivered: the session is told of the leave, and
then of the older join. -/
theorem received_decreasing :
    ∃ s, run .init (joinsAndLeaves ++ checks 0 :: checks 1 :: delivers 1 ++ delivers 0) = some s ∧
      (∀ c ∈ s.calls, ∃ result, c.pc = .returned result) ∧
      (s.received "r" ("c", "s")).map (fun e => (e.action, e.gen)) =
        [(.leave, 2), (.join, 1)] := by
  have hdone : (run .init (joinsAndLeaves ++ checks 0 :: checks 1 :: delivers 1 ++ delivers 0)).map
      (fun s => (s.calls.map pc,
        (s.received "r" ("c", "s")).map (fun e => (e.action, e.gen)))) =
      some (replicate 2 (.returned (.delivered ["r"])), [(.leave, 2), (.join, 1)]) := by
    decide +kernel
  obtain ⟨s, hs, hend⟩ := Option.map_eq_some_iff.mp hdone
  obtain ⟨hpcs, hgens⟩ := Prod.mk.inj hend
  refine ⟨s, hs, fun c hc => ?_, hgens⟩
  have hpc : c.pc ∈ s.calls.map pc := mem_map_of_mem hc
  rw [hpcs] at hpc
  exact ⟨_, eq_of_mem_replicate hpc⟩

end Runs

end MessageLoop.Occupancy
