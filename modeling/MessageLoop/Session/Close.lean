import MessageLoop.Lib.Transition
import MessageLoop.Runtime.SubscriptionCalls
import MessageLoop.Session.HubInterest

/-!
`Close` of a session while subscription calls for it are in flight (`internal/session/session.go`,
`internal/runtime/node.go`, `internal/runtime/cluster_resume.go`).

`Close` marks the session closed, takes a snapshot of the tracked channels and removes them with
concurrent `RemoveSubscription` calls. `AddSubscription` calls and restores of snapshot channels
start and proceed at any time; every external call may fail.
-/

namespace MessageLoop.Close

/-- Everything that happens around the session object `session` of a node. -/
structure State where
  session : SessionRef
  node : Node
  calls : List SubCall

/-- `channels` is the order in which `Close` happens to range over the tracked set. -/
inductive Action where
  | add (ch : String) (ephemeral : Bool)
  | restore (ch : String) (ephemeral : Bool)
  | close (channels : List String)
  | call (k : Nat) (ok : Bool)
  deriving DecidableEq, Repr

namespace State

def closed (s : State) : Prop :=
  (s.node.sessions s.session).state = .closed

instance (s : State) : Decidable s.closed :=
  inferInstanceAs (Decidable (_ = _))

def tracked (s : State) : Finset String :=
  s.node.tracked s.session

def lookupSubscriber (s : State) (ch : String) : Option Subscriber :=
  s.node.lookupSubscriber ch s.session

end State

def step (s : State) : Action → Option State
  | .add ch ephemeral => some { s with calls := s.calls ++ [SubCall.add s.session ch ephemeral] }
  | .restore ch ephemeral =>
    some { s with calls := s.calls ++ [SubCall.restore s.session ch ephemeral] }
  | .close channels =>
    if s.closed then none
    else if channels.Nodup ∧ channels.toFinset = s.tracked then
      some { s with
        node := s.node.setSession s.session (s.node.sessions s.session).markClosed
        calls := s.calls ++ channels.map (SubCall.remove s.session) }
    else none
  | .call k ok =>
    (Calls.step ⟨s.node, s.calls⟩ k ok).map fun r => { s with node := r.node, calls := r.calls }

abbrev run : State → List Action → Option State :=
  Transition.run step

def Finished (s : State) : Prop :=
  s.closed ∧ ∀ a ∈ s.calls, a.returned

instance (s : State) : Decidable (Finished s) :=
  inferInstanceAs (Decidable (_ ∧ _))

/-- The hub has no subscription of the session, and the broker interest is what the subscriptions
of the others call for. -/
structure Clean (s : State) : Prop where
  subscriptions : ∀ ch, s.lookupSubscriber ch = none
  interest : ∀ ch, s.node.interest ch = s.node.hub.wants ch

/-- A session that is open and whose subscriptions are tracked and its own, on a node whose broker
interest matches its hub. -/
structure Consistent (s : State) : Prop where
  live : ¬ s.closed
  idle : s.calls = []
  tracked : ∀ ch, s.lookupSubscriber ch ≠ none → ch ∈ s.tracked
  patterned : s.node.hub.Patterned (s.node.sessionID s.session)
  interest : ∀ ch, s.node.interest ch = s.node.hub.wants ch

def restoring (a : SubCall) : Bool :=
  match a.pc with
  | .restoreSubscribe | .restoreRemove | .restoreTrack => true
  | _ => false

def awaiting (a : SubCall) (ch : String) : Prop :=
  a.op = .remove ∧ a.channel = ch ∧ a.pc = .start

instance (a : SubCall) (ch : String) : Decidable (awaiting a ch) :=
  inferInstanceAs (Decidable (_ ∧ _))

/-- What keeps a `Close` complete. Its own removals do not fail, and neither do the broker calls
that undo an addition. A restore adds to a closed session only while `Close` has still to remove
that channel, and untracks a channel only when it is not subscribed; the snapshot `Close` takes
has the channels that restores have added. -/
def Orderly (s : State) : Action → Prop
  | .call k ok =>
    match s.calls[k]? with
    | none => True
    | some a =>
      match a.pc with
      | .commit _ => a.op = .remove → ok = true
      | .rollback _ .broker | .undoUnsubscribe => ok = true
      | .restoreAdd => s.closed → ∃ d ∈ s.calls, awaiting d a.channel
      | .restoreUntrack => ¬ s.closed → s.lookupSubscriber a.channel = none
      | _ => True
  | .close _ => ∀ a ∈ s.calls, restoring a → a.channel ∈ s.tracked
  | _ => True

instance (s : State) (a : Action) : Decidable (Orderly s a) := by
  unfold Orderly
  split
  · split
    · infer_instance
    · split <;> infer_instance
  · infer_instance
  · infer_instance

end MessageLoop.Close
