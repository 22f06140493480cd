import MessageLoop.Runtime.Subscription

/-!
Subscription calls that run concurrently: `AddSubscription`, `RemoveSubscription` and the restore
of one snapshot channel (`restoreSessionSubscriptions` in `internal/runtime/cluster_resume.go`),
one critical section or store operation a step.

Steps under the lock of a channel exclude each other. The locks of the source are shared by the
channels of a hash bucket, which allows fewer interleavings than a lock for each channel.
-/

namespace MessageLoop

inductive CallOp where
  | add (ephemeral : Bool)
  | remove
  | restore (ephemeral : Bool)
  deriving DecidableEq, Repr

inductive CallResult where
  | ok
  | failed (step : SagaStep)
  | notRestored
  deriving DecidableEq, Repr

/-- Where a call stands; a rollback remembers the step whose commit failed. -/
inductive Pc where
  | start
  | commit (step : SagaStep)
  | rollback (failed step : SagaStep)
  | restoreCheck
  | restoreAdd
  | restoreSubscribe
  | restoreRemove
  | restoreTrack
  | restorePresence
  | restoreUntrack
  | restoreAdjust
  | undoRemove
  | undoUntrack
  | undoUnsubscribe
  | returned (result : CallResult)
  deriving DecidableEq, Repr

/-- `subscriber` is the record to add, or the one `RemoveSubscription` found; `flag` is what the
hub reported about the first or last subscription. -/
structure SubCall where
  op : CallOp
  session : SessionRef
  channel : String
  subscriber : Subscriber
  flag : Bool
  pc : Pc
  deriving DecidableEq, Repr

namespace SagaStep

def next : SagaStep → Option SagaStep
  | .hub => some .client
  | .client => some .broker
  | .broker => some .session
  | .session => some .channel
  | .channel => none

def prev : SagaStep → Option SagaStep
  | .hub => none
  | .client => some .hub
  | .broker => some .client
  | .session => some .broker
  | .channel => some .session

end SagaStep

namespace SubCall

def add (c : SessionRef) (ch : String) (ephemeral : Bool) : SubCall :=
  ⟨.add ephemeral, c, ch, newSubscriber c ephemeral, false, .start⟩

def remove (c : SessionRef) (ch : String) : SubCall :=
  ⟨.remove, c, ch, newSubscriber c false, false, .start⟩

def restore (c : SessionRef) (ch : String) (ephemeral : Bool) : SubCall :=
  ⟨.restore ephemeral, c, ch, newSubscriber c ephemeral, false, .restoreCheck⟩

def goto (c : SubCall) (pc : Pc) : SubCall :=
  { c with pc := pc }

def sagaStep (c : SubCall) (ok : Bool) (k : SagaStep) : SubStep :=
  match c.op with
  | .remove => removeStep c.channel c.session c.subscriber ok ok k
  | _ => addStep c.channel c.subscriber ok ok k

def unwind (c : SubCall) (failed k : SagaStep) : SubCall :=
  match k.prev with
  | some j => c.goto (.rollback failed j)
  | none => c.goto (.returned (.failed failed))

def returned (c : SubCall) : Bool :=
  match c.pc with
  | .returned _ => true
  | _ => false

def acquires (c : SubCall) : Bool :=
  match c.pc with
  | .start | .undoRemove => true
  | _ => false

def holds (c : SubCall) : Bool :=
  match c.pc with
  | .commit _ | .rollback _ _ | .restoreAdd | .restoreSubscribe | .restoreRemove | .restoreTrack
  | .undoUntrack | .undoUnsubscribe => true
  | _ => false

def lookup (n : Node) (c : SubCall) : SubCall :=
  match c.op, n.lookupSubscriber c.channel c.session with
  | .add _, some _ => c.goto (.returned .ok)
  | .add _, none => c.goto (.commit .hub)
  | .remove, none => c.goto (.returned .ok)
  | .remove, some r => { c with subscriber := r, pc := .commit .hub }
  | .restore _, some _ => c.goto .restorePresence
  | .restore _, none => c.goto .restoreAdd

/-- One step of a call; `ok` is the outcome of the external call it makes, if it makes one. -/
def step (n : Node) (c : SubCall) (ok : Bool) : Option (Node × SubCall) :=
  match c.pc with
  | .start => some (n, c.lookup n)
  | .commit k =>
    match (c.sagaStep ok k).commit (n, c.flag) with
    | .ok (t, flag) =>
      some (t, { c with
        flag := flag
        pc := match k.next with
          | some j => .commit j
          | none => .returned .ok })
    | .error _ => some (n, c.unwind k k)
  | .rollback failed k =>
    some (((c.sagaStep ok k).rollback (n, c.flag)).1, c.unwind failed k)
  | .restoreCheck => some (n, c.goto (if ok then .start else .restoreUntrack))
  | .restoreAdd =>
    match n.addSub c.channel c.subscriber with
    | .ok (first, t) => some (t, { c with flag := first, pc := .restoreSubscribe })
    | .error _ => some (n, c.goto .restoreUntrack)
  | .restoreSubscribe =>
    if c.flag then
      match n.brokerSubscribe c.channel ok with
      | some t => some (t, c.goto .restoreTrack)
      | none => some (n, c.goto .restoreRemove)
    else some (n, c.goto .restoreTrack)
  | .restoreRemove =>
    some ((n.removeSub c.channel c.session).2.2, c.goto .restoreUntrack)
  | .restoreTrack => some (n.forceTrackChannel c.session c.channel, c.goto .restorePresence)
  | .restorePresence => some (n, c.goto (if ok then .restoreAdjust else .undoRemove))
  | .restoreUntrack =>
    some (n.untrackChannel c.session c.channel, c.goto (.returned .notRestored))
  | .restoreAdjust =>
    some ((n.adjustClusterChannelSubscriptions c.channel 1 ok).getD n, c.goto (.returned .ok))
  | .undoRemove =>
    match n.removeSub c.channel c.session with
    | (_, false, _) => some (n, c.goto (.returned .notRestored))
    | (last, true, t) => some (t, { c with flag := last, pc := .undoUntrack })
  | .undoUntrack => some (n.untrackChannel c.session c.channel, c.goto .undoUnsubscribe)
  | .undoUnsubscribe =>
    if c.flag then
      some ((n.brokerUnsubscribe c.channel ok).getD n, c.goto (.returned .notRestored))
    else some (n, c.goto (.returned .notRestored))
  | .returned _ => none

end SubCall

/-- The calls in progress on a node. A call waits for the lock of its channel. -/
structure Calls where
  node : Node
  calls : List SubCall

def Calls.blocked (s : Calls) (c : SubCall) : Prop :=
  c.acquires ∧ ∃ d ∈ s.calls, d.holds ∧ d.channel = c.channel

instance (s : Calls) (c : SubCall) : Decidable (s.blocked c) :=
  inferInstanceAs (Decidable (_ ∧ _))

def Calls.step (s : Calls) (k : Nat) (ok : Bool) : Option Calls :=
  s.calls[k]?.bind fun c =>
    if s.blocked c then none
    else (c.step s.node ok).map fun r => ⟨r.1, s.calls.set k r.2⟩

theorem Calls.step_eq_some {s s' : Calls} {k : Nat} {ok : Bool} (h : s.step k ok = some s') :
    ∃ a t b, s.calls[k]? = some a ∧ ¬ s.blocked a ∧ a.step s.node ok = some (t, b) ∧
      s' = ⟨t, s.calls.set k b⟩ := by
  obtain ⟨a, hk, h⟩ := Option.bind_eq_some_iff.mp h
  split_ifs at h with hblocked
  obtain ⟨⟨t, b⟩, hstep, rfl⟩ := Option.map_eq_some_iff.mp h
  exact ⟨a, t, b, hk, hblocked, hstep, rfl⟩

variable {n t : Node} {c : SessionRef} {ch : String} {sub : Subscriber} {k : SagaStep}
variable {ok undone flag : Bool}

section Failures
variable {err : StepError}

theorem syncClusterSessionState_isSome : (n.syncClusterSessionState c true).isSome = true := by
  unfold Node.syncClusterSessionState
  split <;> rfl

theorem adjustClusterChannelSubscriptions_isSome {delta : Int} :
    (n.adjustClusterChannelSubscriptions ch delta true).isSome = true := by
  unfold Node.adjustClusterChannelSubscriptions
  split <;> rfl

theorem external_ne_error {r : Option Node} (h : r.isSome = true) :
    external r flag ≠ .error err := by
  obtain ⟨t, rfl⟩ := Option.isSome_iff_exists.mp h
  exact nofun

theorem addStep_fails
    (h : (addStep ch sub true undone k).commit (n, flag) = .error err) :
    k = .hub ∨ k = .client ∧ (n.sessions sub.session).state = .closed := by
  cases k with
  | hub => exact .inl rfl
  | client =>
    by_cases hclosed : (n.sessions sub.session).state = .closed
    · exact .inr ⟨rfl, hclosed⟩
    · simp [addStep, Node.trackChannel_of_open hclosed] at h
  | broker => cases flag <;> cases h
  | session => exact absurd h (external_ne_error syncClusterSessionState_isSome)
  | channel => exact absurd h (external_ne_error adjustClusterChannelSubscriptions_isSome)

theorem removeStep_fails
    (h : (removeStep ch c sub true undone k).commit (n, flag) = .error err) :
    k = .hub ∧ n.lookupSubscriber ch c = none := by
  cases k with
  | hub =>
    refine ⟨rfl, ?_⟩
    have hremoved : (n.removeSub ch c).2.1 = (n.lookupSubscriber ch c).isSome :=
      Hub.removeSub_removed
    rcases hremove : n.removeSub ch c with ⟨last, removed, m⟩
    cases removed with
    | false => simpa [hremove] using hremoved.symm
    | true => simp [removeStep, hremove] at h
  | client => cases h
  | broker => cases flag <;> cases h
  | session => exact absurd h (external_ne_error syncClusterSessionState_isSome)
  | channel => exact absurd h (external_ne_error adjustClusterChannelSubscriptions_isSome)

end Failures

section Moves

namespace SubCall

def committed (k : SagaStep) : Pc :=
  match k.next with
  | some j => .commit j
  | none => .returned .ok

inductive Move (n : Node) : SubCall → Bool → Node → SubCall → Prop where
  | addFound {e c ch sub r flag ok : _} (h : n.lookupSubscriber ch c = some r) :
      Move n ⟨.add e, c, ch, sub, flag, .start⟩ ok n ⟨.add e, c, ch, sub, flag, .returned .ok⟩
  | addStart {e c ch sub flag ok : _} (h : n.lookupSubscriber ch c = none) :
      Move n ⟨.add e, c, ch, sub, flag, .start⟩ ok n ⟨.add e, c, ch, sub, flag, .commit .hub⟩
  | removeMissing {c ch sub flag ok : _} (h : n.lookupSubscriber ch c = none) :
      Move n ⟨.remove, c, ch, sub, flag, .start⟩ ok n ⟨.remove, c, ch, sub, flag, .returned .ok⟩
  | removeStart {c ch sub r flag ok : _} (h : n.lookupSubscriber ch c = some r) :
      Move n ⟨.remove, c, ch, sub, flag, .start⟩ ok n ⟨.remove, c, ch, r, flag, .commit .hub⟩
  | restoreFound {e c ch sub r flag ok : _} (h : n.lookupSubscriber ch c = some r) :
      Move n ⟨.restore e, c, ch, sub, flag, .start⟩ ok n
        ⟨.restore e, c, ch, sub, flag, .restorePresence⟩
  | restoreStart {e c ch sub flag ok : _} (h : n.lookupSubscriber ch c = none) :
      Move n ⟨.restore e, c, ch, sub, flag, .start⟩ ok n
        ⟨.restore e, c, ch, sub, flag, .restoreAdd⟩
  | addCommit {op c ch sub flag flag' ok k t : _} (hop : op ≠ .remove)
      (h : AddCommits n ch sub k ok flag t flag') :
      Move n ⟨op, c, ch, sub, flag, .commit k⟩ ok t ⟨op, c, ch, sub, flag', committed k⟩
  | removeCommit {c ch sub flag flag' ok k t : _} (h : RemoveCommits n ch c k ok flag t flag') :
      Move n ⟨.remove, c, ch, sub, flag, .commit k⟩ ok t
        ⟨.remove, c, ch, sub, flag', committed k⟩
  | commitFailed {op c ch sub flag ok k err : _}
      (h : (sagaStep ⟨op, c, ch, sub, flag, .commit k⟩ ok k).commit (n, flag) = .error err) :
      Move n ⟨op, c, ch, sub, flag, .commit k⟩ ok n
        (unwind ⟨op, c, ch, sub, flag, .commit k⟩ k k)
  | rollback {op c ch sub flag ok failed k : _} :
      Move n ⟨op, c, ch, sub, flag, .rollback failed k⟩ ok
        ((sagaStep ⟨op, c, ch, sub, flag, .rollback failed k⟩ ok k).rollback (n, flag)).1
        (unwind ⟨op, c, ch, sub, flag, .rollback failed k⟩ failed k)
  | restoreCheck {op c ch sub flag ok : _} :
      Move n ⟨op, c, ch, sub, flag, .restoreCheck⟩ ok n
        ⟨op, c, ch, sub, flag, if ok then .start else .restoreUntrack⟩
  | restoreAdd {op c ch sub flag first ok t : _} (h : n.addSub ch sub = .ok (first, t)) :
      Move n ⟨op, c, ch, sub, flag, .restoreAdd⟩ ok t ⟨op, c, ch, sub, first, .restoreSubscribe⟩
  | restoreAddFailed {op c ch sub flag ok err : _} (h : n.addSub ch sub = .error err) :
      Move n ⟨op, c, ch, sub, flag, .restoreAdd⟩ ok n ⟨op, c, ch, sub, flag, .restoreUntrack⟩
  | restoreSubscribeKept {op c ch sub ok : _} :
      Move n ⟨op, c, ch, sub, false, .restoreSubscribe⟩ ok n
        ⟨op, c, ch, sub, false, .restoreTrack⟩
  | restoreSubscribe {op c ch sub : _} :
      Move n ⟨op, c, ch, sub, true, .restoreSubscribe⟩ true
        (n.setInterest ch (n.interest ch + 1)) ⟨op, c, ch, sub, true, .restoreTrack⟩
  | restoreSubscribeFailed {op c ch sub : _} :
      Move n ⟨op, c, ch, sub, true, .restoreSubscribe⟩ false n
        ⟨op, c, ch, sub, true, .restoreRemove⟩
  | restoreRemove {op c ch sub flag ok : _} :
      Move n ⟨op, c, ch, sub, flag, .restoreRemove⟩ ok (n.removeSub ch c).2.2
        ⟨op, c, ch, sub, flag, .restoreUntrack⟩
  | restoreTrack {op c ch sub flag ok : _} :
      Move n ⟨op, c, ch, sub, flag, .restoreTrack⟩ ok (n.forceTrackChannel c ch)
        ⟨op, c, ch, sub, flag, .restorePresence⟩
  | restorePresence {op c ch sub flag ok : _} :
      Move n ⟨op, c, ch, sub, flag, .restorePresence⟩ ok n
        ⟨op, c, ch, sub, flag, if ok then .restoreAdjust else .undoRemove⟩
  | restoreUntrack {op c ch sub flag ok : _} :
      Move n ⟨op, c, ch, sub, flag, .restoreUntrack⟩ ok (n.untrackChannel c ch)
        ⟨op, c, ch, sub, flag, .returned .notRestored⟩
  | restoreAdjust {op c ch sub flag ok : _} :
      Move n ⟨op, c, ch, sub, flag, .restoreAdjust⟩ ok
        ((n.adjustClusterChannelSubscriptions ch 1 ok).getD n)
        ⟨op, c, ch, sub, flag, .returned .ok⟩
  | undoMissing {op c ch sub flag last ok t : _} (h : n.removeSub ch c = (last, false, t)) :
      Move n ⟨op, c, ch, sub, flag, .undoRemove⟩ ok n
        ⟨op, c, ch, sub, flag, .returned .notRestored⟩
  | undoRemove {op c ch sub flag last ok t : _} (h : n.removeSub ch c = (last, true, t)) :
      Move n ⟨op, c, ch, sub, flag, .undoRemove⟩ ok t ⟨op, c, ch, sub, last, .undoUntrack⟩
  | undoUntrack {op c ch sub flag ok : _} :
      Move n ⟨op, c, ch, sub, flag, .undoUntrack⟩ ok (n.untrackChannel c ch)
        ⟨op, c, ch, sub, flag, .undoUnsubscribe⟩
  | undoUnsubscribeKept {op c ch sub ok : _} :
      Move n ⟨op, c, ch, sub, false, .undoUnsubscribe⟩ ok n
        ⟨op, c, ch, sub, false, .returned .notRestored⟩
  | undoUnsubscribe {op c ch sub ok : _} :
      Move n ⟨op, c, ch, sub, true, .undoUnsubscribe⟩ ok ((n.brokerUnsubscribe ch ok).getD n)
        ⟨op, c, ch, sub, true, .returned .notRestored⟩

variable {a b : SubCall}

theorem move_commit {op : CallOp} (h : (SubCall.mk op c ch sub flag (.commit k)).step n ok =
    some (t, b)) : Move n ⟨op, c, ch, sub, flag, .commit k⟩ ok t b := by
  cases hcommit : (sagaStep ⟨op, c, ch, sub, flag, .commit k⟩ ok k).commit (n, flag) with
  | error err =>
    simp only [step, hcommit] at h
    cases h
    exact .commitFailed hcommit
  | ok r =>
    simp only [step, hcommit] at h
    cases h
    cases op with
    | remove => exact .removeCommit (removeStep_commits hcommit)
    | add e | restore e => exact .addCommit nofun (addStep_commits hcommit)

theorem move_of_step (h : a.step n ok = some (t, b)) : Move n a ok t b := by
  obtain ⟨op, c, ch, sub, flag, pc⟩ := a
  cases pc with
  | start =>
    cases hlookup : n.lookupSubscriber ch c with
    | none =>
      cases op <;> simp only [step, lookup, hlookup] at h <;> cases h
      · exact .addStart hlookup
      · exact .removeMissing hlookup
      · exact .restoreStart hlookup
    | some r =>
      cases op <;> simp only [step, lookup, hlookup] at h <;> cases h
      · exact .addFound hlookup
      · exact .removeStart hlookup
      · exact .restoreFound hlookup
  | commit k => exact move_commit h
  | rollback _ _ | restoreCheck | restoreRemove | restoreTrack | restorePresence | restoreUntrack
  | restoreAdjust | undoUntrack =>
    cases h
    constructor
  | restoreAdd =>
    cases hadd : n.addSub ch sub with
    | error err =>
      simp only [step, hadd] at h
      cases h
      exact .restoreAddFailed hadd
    | ok r =>
      simp only [step, hadd] at h
      cases h
      exact .restoreAdd hadd
  | restoreSubscribe =>
    cases flag with
    | false =>
      cases h
      exact .restoreSubscribeKept
    | true =>
      cases ok with
      | false =>
        cases h
        exact .restoreSubscribeFailed
      | true =>
        cases h
        exact .restoreSubscribe
  | undoRemove =>
    rcases hremove : n.removeSub ch c with ⟨last, removed, m⟩
    cases removed with
    | false =>
      simp only [step, hremove] at h
      cases h
      exact .undoMissing hremove
    | true =>
      simp only [step, hremove] at h
      cases h
      exact .undoRemove hremove
  | undoUnsubscribe =>
    cases flag <;> cases h
    · exact .undoUnsubscribeKept
    · exact .undoUnsubscribe
  | returned r => cases h

end SubCall

end Moves

section Effect

/-- All that a step can change in the sessions and in the hub: the tracked set of its session and
the record of its channel. -/
structure Touches (ch : String) (c : SessionRef) (sub : Subscriber) (n t : Node) : Prop where
  enabled : t.clusterEnabled = n.clusterEnabled
  tracked : ∀ x, x ≠ ch → (x ∈ t.tracked c ↔ x ∈ n.tracked c)
  sessions : ∃ channels, t.sessions = Function.update n.sessions c
    { n.sessions c with subscribedChannels := channels }
  hub : t.hub = n.hub ∨ t.hub = (n.hub.removeSub ch (n.sessionID c)).2.2 ∨
    ∃ first, n.hub.addSub ch (n.sessionID c) sub = .ok (first, t.hub)

theorem Touches.sessionID (h : Touches ch c sub n t) (c' : SessionRef) :
    t.sessionID c' = n.sessionID c' := by
  obtain ⟨channels, hsessions⟩ := h.sessions
  unfold Node.sessionID
  rw [hsessions]
  by_cases hc : c' = c
  · subst hc
    rw [Function.update_self]
  · rw [Function.update_of_ne hc]

theorem Touches.lookup_of_ne (h : Touches ch c sub n t) {x : String} (hx : x ≠ ch) :
    t.lookupSubscriber x c = n.lookupSubscriber x c := by
  unfold Node.lookupSubscriber
  rw [h.sessionID]
  rcases h.hub with hhub | hhub | ⟨first, hhub⟩
  · rw [hhub]
  · rw [hhub, Hub.lookupSubscriber_removeSub, if_neg hx]
  · exact Hub.lookupSubscriber_addSub_of_ne hx hhub

theorem Touches.lookup_or (h : Touches ch c sub n t) {x : String} {r : Subscriber}
    (hr : t.lookupSubscriber x c = some r) : n.lookupSubscriber x c = some r ∨ r = sub := by
  unfold Node.lookupSubscriber at hr ⊢
  rw [h.sessionID] at hr
  rcases h.hub with hhub | hhub | ⟨first, hhub⟩
  · rw [hhub] at hr
    exact .inl hr
  · rw [hhub, Hub.lookupSubscriber_removeSub] at hr
    split_ifs at hr
    exact .inl hr
  · rcases Hub.lookupSubscriber_addSub_or x hhub with hsame | hnew
    · rw [hsame] at hr
      exact .inl hr
    · rw [hnew] at hr
      exact .inr (Option.some.inj hr).symm

theorem touches_of_sessions (henabled : t.clusterEnabled = n.clusterEnabled)
    (hsessions : t.sessions = n.sessions)
    (hhub : t.hub = n.hub ∨ t.hub = (n.hub.removeSub ch (n.sessionID c)).2.2 ∨
      ∃ first, n.hub.addSub ch (n.sessionID c) sub = .ok (first, t.hub)) :
    Touches ch c sub n t :=
  ⟨henabled, fun x _ => by simp [Node.tracked, hsessions],
    ⟨(n.sessions c).subscribedChannels, by simp [hsessions]⟩, hhub⟩

theorem touches_of_eq (henabled : t.clusterEnabled = n.clusterEnabled)
    (hsessions : t.sessions = n.sessions) (hhub : t.hub = n.hub) : Touches ch c sub n t :=
  touches_of_sessions henabled hsessions (.inl hhub)

theorem touches_refl : Touches ch c sub n n :=
  touches_of_eq rfl rfl rfl

theorem touches_removeSub : Touches ch c sub n (n.removeSub ch c).2.2 :=
  touches_of_sessions rfl rfl (.inr (.inl rfl))

theorem touches_of_removeSub {last removed : Bool} (h : n.removeSub ch c = (last, removed, t)) :
    Touches ch c sub n t := by
  have ht : (n.removeSub ch c).2.2 = t := by rw [h]
  exact ht ▸ touches_removeSub

theorem touches_addSub {first : Bool} (hsub : sub.session = c)
    (h : n.addSub ch sub = .ok (first, t)) : Touches ch c sub n t := by
  obtain ⟨hub, hadd, rfl⟩ := Node.addSub_eq_ok h
  refine touches_of_sessions rfl rfl (.inr (.inr ⟨first, ?_⟩))
  rw [← hsub]
  exact hadd

theorem touches_readdSub (hsub : sub.session = c) : Touches ch c sub n (n.readdSub ch sub) := by
  refine touches_of_sessions rfl rfl ?_
  subst hsub
  unfold Node.readdSub Hub.readd
  cases hadd : n.hub.addSub ch (n.sessionID sub.session) sub with
  | error e => exact .inl rfl
  | ok r => exact .inr (.inr ⟨r.1, rfl⟩)

theorem touches_forceTrackChannel : Touches ch c sub n (n.forceTrackChannel c ch) :=
  ⟨rfl, fun x hx => by simp [hx], ⟨_, rfl⟩, .inl rfl⟩

theorem touches_untrackChannel : Touches ch c sub n (n.untrackChannel c ch) :=
  ⟨rfl, fun x hx => by simp [hx], ⟨_, rfl⟩, .inl rfl⟩

theorem touches_broker {interest : Nat} :
    Touches ch c sub n ((if ok then some (n.setInterest ch interest) else none).getD n) := by
  cases ok <;> exact touches_of_eq rfl rfl rfl

theorem touches_sync (h : n.syncClusterSessionState c ok = some t) : Touches ch c sub n t := by
  unfold Node.syncClusterSessionState at h
  split_ifs at h <;> cases h <;> exact touches_of_eq rfl rfl rfl

theorem touches_adjust {delta : Int}
    (h : n.adjustClusterChannelSubscriptions ch delta ok = some t) : Touches ch c sub n t := by
  unfold Node.adjustClusterChannelSubscriptions at h
  split_ifs at h <;> cases h <;> exact touches_of_eq rfl rfl rfl

theorem touches_getD {r : Option Node} (h : ∀ t, r = some t → Touches ch c sub n t) :
    Touches ch c sub n (r.getD n) := by
  cases r with
  | none => exact touches_refl
  | some t => exact h t rfl

theorem AddCommits.touches {flag' : Bool} (hsub : sub.session = c)
    (h : AddCommits n ch sub k ok flag t flag') : Touches ch c sub n t := by
  subst hsub
  cases h with
  | hub hadd => exact touches_addSub rfl hadd
  | client _ => exact touches_forceTrackChannel
  | brokerKept => exact touches_refl
  | broker => exact touches_of_eq rfl rfl rfl
  | session hsync => exact touches_sync hsync
  | channel hadjust => exact touches_adjust hadjust

theorem RemoveCommits.touches {flag' : Bool} (h : RemoveCommits n ch c k ok flag t flag') :
    Touches ch c sub n t := by
  cases h with
  | hub hremove => exact touches_of_removeSub hremove
  | client => exact touches_untrackChannel
  | brokerKept => exact touches_refl
  | broker => exact touches_of_eq rfl rfl rfl
  | session hsync => exact touches_sync hsync
  | channel hadjust => exact touches_adjust hadjust

theorem addStep_rollback_touches (hsub : sub.session = c) :
    Touches ch c sub n ((addStep ch sub ok undone k).rollback (n, flag)).1 := by
  subst hsub
  cases k with
  | hub => exact touches_removeSub
  | client => exact touches_untrackChannel
  | broker =>
    cases flag with
    | false => exact touches_refl
    | true => exact touches_broker
  | session => exact touches_getD (fun _ h => touches_sync h)
  | channel => exact touches_getD (fun _ h => touches_adjust h)

theorem removeStep_rollback_touches (hsub : sub.session = c) :
    Touches ch c sub n ((removeStep ch c sub ok undone k).rollback (n, flag)).1 := by
  cases k with
  | hub => exact touches_readdSub hsub
  | client => exact touches_forceTrackChannel
  | broker =>
    cases flag with
    | false => exact touches_refl
    | true => exact touches_broker
  | session => exact touches_getD (fun _ h => touches_sync h)
  | channel => exact touches_getD (fun _ h => touches_adjust h)

namespace SubCall

variable {a b : SubCall}

theorem rollback_touches (hsub : a.subscriber.session = a.session) :
    Touches a.channel a.session a.subscriber n ((a.sagaStep ok k).rollback (n, a.flag)).1 := by
  unfold sagaStep
  cases a.op with
  | remove => exact removeStep_rollback_touches hsub
  | add e | restore e => exact addStep_rollback_touches hsub

/-- What a step keeps of the call; a removal takes over the record it has found. -/
structure Continues (n : Node) (a b : SubCall) : Prop where
  op : b.op = a.op
  session : b.session = a.session
  channel : b.channel = a.channel
  subscriber : b.subscriber = a.subscriber ∨ a.op = .remove ∧
    n.lookupSubscriber a.channel a.session = some b.subscriber

theorem continues_unwind (a : SubCall) (failed k : SagaStep) :
    Continues n a (a.unwind failed k) := by
  unfold unwind
  cases k.prev with
  | none | some j => exact ⟨rfl, rfl, rfl, .inl rfl⟩

theorem Move.continues (h : Move n a ok t b) : Continues n a b := by
  cases h with
  | removeStart hlookup => exact ⟨rfl, rfl, rfl, .inr ⟨rfl, hlookup⟩⟩
  | commitFailed _ | rollback => exact continues_unwind _ _ _
  | _ => exact ⟨rfl, rfl, rfl, .inl rfl⟩

theorem Move.touches (hsub : a.subscriber.session = a.session) (h : Move n a ok t b) :
    Touches a.channel a.session a.subscriber n t := by
  cases h with
  | addCommit _ hadd => exact hadd.touches hsub
  | removeCommit hremove => exact hremove.touches
  | rollback => exact rollback_touches hsub
  | restoreAdd hadd => exact touches_addSub hsub hadd
  | restoreSubscribe => exact touches_of_eq rfl rfl rfl
  | restoreRemove => exact touches_removeSub
  | restoreTrack => exact touches_forceTrackChannel
  | restoreUntrack | undoUntrack => exact touches_untrackChannel
  | restoreAdjust => exact touches_getD (fun _ hadjust => touches_adjust hadjust)
  | undoRemove hremove => exact touches_of_removeSub hremove
  | undoUnsubscribe => exact touches_broker
  | _ => exact touches_refl

structure Effect (n : Node) (a : SubCall) (t : Node) (b : SubCall) : Prop extends
    Continues n a b where
  touches : Touches a.channel a.session a.subscriber n t

theorem step_effect (hsub : a.subscriber.session = a.session)
    (h : a.step n ok = some (t, b)) : Effect n a t b :=
  ⟨(move_of_step h).continues, (move_of_step h).touches hsub⟩

theorem holds_of_step (h : a.step n ok = some (t, b)) (hb : b.holds) : a.holds ∨ a.acquires := by
  obtain ⟨op, c, ch, sub, flag, pc⟩ := a
  cases pc with
  | start | undoRemove => exact .inr rfl
  | restoreCheck | restorePresence =>
    cases h
    cases ok <;> cases hb
  | restoreUntrack | restoreAdjust =>
    cases h
    cases hb
  | returned result => cases h
  | _ => exact .inl rfl

end SubCall

end Effect

end MessageLoop
