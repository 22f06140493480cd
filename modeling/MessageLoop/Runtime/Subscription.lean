import MessageLoop.Lib.Saga
import MessageLoop.Runtime.Node

/-!
`AddSubscription` and `RemoveSubscription` of the node (`internal/runtime/node.go`), run as the
sagas of `internal/runtime/subscription_saga.go` under the lock of their channel.
-/

namespace MessageLoop

open Topics

inductive SagaStep where
  | hub
  | client
  | broker
  | session
  | channel
  deriving DecidableEq, Repr

def SagaStep.order : List SagaStep :=
  [.hub, .client, .broker, .session, .channel]

inductive StepError where
  | topic (e : TopicError)
  | clientClosed
  | notFound
  | unavailable
  deriving DecidableEq, Repr

/-- A saga works on the node and on the flag `first` (adding) or `last` (removing) that its hub
step captures. -/
abbrev SubStep := Saga.Step (Node × Bool) String StepError

/-- A call to the broker or to a cluster store, the only steps whose outcome is not decided by
the node's own state. -/
def external (r : Option Node) (flag : Bool) : Except StepError (Node × Bool) :=
  match r with
  | some n => .ok (n, flag)
  | none => .error .unavailable

/-- The steps of `AddSubscription`; `ok` and `undone` are the outcomes of the external calls the
step's commit and rollback make. -/
def addStep (ch : String) (sub : Subscriber) (ok undone : Bool) : SagaStep → SubStep
  | .hub => {
      name := "hub.addSub"
      commit := fun (n, _) =>
        match n.addSub ch sub with
        | .ok (first, n) => .ok (n, first)
        | .error e => .error (.topic e)
      rollback := fun (n, first) => ((n.removeSub ch sub.session).2.2, first) }
  | .client => {
      name := "track.client"
      commit := fun (n, first) =>
        match n.trackChannel sub.session ch with
        | (true, _) => .error .clientClosed
        | (false, n) => .ok (n, first)
      rollback := fun (n, first) => (n.untrackChannel sub.session ch, first) }
  | .broker => {
      name := "broker.Subscribe"
      commit := fun (n, first) =>
        if first then external (n.brokerSubscribe ch ok) first else .ok (n, first)
      rollback := fun (n, first) =>
        if first then ((n.brokerUnsubscribe ch undone).getD n, first) else (n, first) }
  | .session => {
      name := "cluster.session"
      commit := fun (n, first) => external (n.syncClusterSessionState sub.session ok) first
      rollback := fun (n, first) =>
        ((n.syncClusterSessionState sub.session undone).getD n, first) }
  | .channel => {
      name := "cluster.channel"
      commit := fun (n, first) => external (n.adjustClusterChannelSubscriptions ch 1 ok) first
      rollback := fun (n, first) =>
        ((n.adjustClusterChannelSubscriptions ch (-1) undone).getD n, first) }

/-- The steps of `RemoveSubscription`; `subscriber` is the record found before the saga. -/
def removeStep (ch : String) (c : SessionRef) (subscriber : Subscriber) (ok undone : Bool) :
    SagaStep → SubStep
  | .hub => {
      name := "hub.removeSub"
      commit := fun (n, _) =>
        match n.removeSub ch c with
        | (last, true, n) => .ok (n, last)
        | (_, false, _) => .error .notFound
      rollback := fun (n, last) => (n.readdSub ch subscriber, last) }
  | .client => {
      name := "untrack.client"
      commit := fun (n, last) => .ok (n.untrackChannel c ch, last)
      rollback := fun (n, last) => (n.forceTrackChannel c ch, last) }
  | .broker => {
      name := "broker.Unsubscribe"
      commit := fun (n, last) =>
        if last then external (n.brokerUnsubscribe ch ok) last else .ok (n, last)
      rollback := fun (n, last) =>
        if last then ((n.brokerSubscribe ch undone).getD n, last) else (n, last) }
  | .session => {
      name := "cluster.session"
      commit := fun (n, last) => external (n.syncClusterSessionState c ok) last
      rollback := fun (n, last) => ((n.syncClusterSessionState c undone).getD n, last) }
  | .channel => {
      name := "cluster.channel"
      commit := fun (n, last) => external (n.adjustClusterChannelSubscriptions ch (-1) ok) last
      rollback := fun (n, last) =>
        ((n.adjustClusterChannelSubscriptions ch 1 undone).getD n, last) }

structure Outcomes where
  commit : SagaStep → Bool
  rollback : SagaStep → Bool

def Outcomes.ok : Outcomes := ⟨fun _ => true, fun _ => true⟩

def runSubSaga (step : Bool → Bool → SagaStep → SubStep) (out : Outcomes) (n : Node) :
    Node × Option (String × StepError) :=
  let r := Saga.run (SagaStep.order.map fun k => step (out.commit k) (out.rollback k) k) (n, false)
  (r.1.1, r.2)

def addSubscription (n : Node) (ch : String) (sub : Subscriber) (out : Outcomes) :
    Node × Option (String × StepError) :=
  match n.lookupSubscriber ch sub.session with
  | some _ => (n, none)
  | none => runSubSaga (addStep ch sub) out n

def removeSubscription (n : Node) (ch : String) (c : SessionRef) (out : Outcomes) :
    Node × Option (String × StepError) :=
  match n.lookupSubscriber ch c with
  | none => (n, none)
  | some subscriber => runSubSaga (removeStep ch c subscriber) out n

section Commits

inductive AddCommits (n : Node) (ch : String) (sub : Subscriber) :
    SagaStep → Bool → Bool → Node → Bool → Prop where
  | hub {ok flag first : Bool} {t : Node} (h : n.addSub ch sub = .ok (first, t)) :
      AddCommits n ch sub .hub ok flag t first
  | client {ok flag : Bool} (h : (n.sessions sub.session).state ≠ .closed) :
      AddCommits n ch sub .client ok flag (n.forceTrackChannel sub.session ch) flag
  | brokerKept {ok : Bool} : AddCommits n ch sub .broker ok false n false
  | broker : AddCommits n ch sub .broker true true (n.setInterest ch (n.interest ch + 1)) true
  | session {ok flag : Bool} {t : Node} (h : n.syncClusterSessionState sub.session ok = some t) :
      AddCommits n ch sub .session ok flag t flag
  | channel {ok flag : Bool} {t : Node}
      (h : n.adjustClusterChannelSubscriptions ch 1 ok = some t) :
      AddCommits n ch sub .channel ok flag t flag

inductive RemoveCommits (n : Node) (ch : String) (c : SessionRef) :
    SagaStep → Bool → Bool → Node → Bool → Prop where
  | hub {ok flag last : Bool} {t : Node} (h : n.removeSub ch c = (last, true, t)) :
      RemoveCommits n ch c .hub ok flag t last
  | client {ok flag : Bool} : RemoveCommits n ch c .client ok flag (n.untrackChannel c ch) flag
  | brokerKept {ok : Bool} : RemoveCommits n ch c .broker ok false n false
  | broker : RemoveCommits n ch c .broker true true (n.setInterest ch (n.interest ch - 1)) true
  | session {ok flag : Bool} {t : Node} (h : n.syncClusterSessionState c ok = some t) :
      RemoveCommits n ch c .session ok flag t flag
  | channel {ok flag : Bool} {t : Node}
      (h : n.adjustClusterChannelSubscriptions ch (-1) ok = some t) :
      RemoveCommits n ch c .channel ok flag t flag

variable {n t : Node} {ch : String} {c : SessionRef} {sub : Subscriber}
variable {ok undone flag flag' : Bool} {k : SagaStep}

theorem external_eq_ok {r : Option Node} (h : external r flag = .ok (t, flag')) :
    r = some t ∧ flag = flag' := by
  cases r with
  | none => cases h
  | some m =>
    cases h
    exact ⟨rfl, rfl⟩

theorem addStep_commits (h : (addStep ch sub ok undone k).commit (n, flag) = .ok (t, flag')) :
    AddCommits n ch sub k ok flag t flag' := by
  cases k with
  | hub =>
    cases hadd : n.addSub ch sub with
    | error e => simp [addStep, hadd] at h
    | ok r =>
      obtain ⟨rfl, rfl⟩ : r.2 = t ∧ r.1 = flag' := by simpa [addStep, hadd] using h
      exact .hub hadd
  | client =>
    by_cases hclosed : (n.sessions sub.session).state = .closed
    · simp [addStep, Node.trackChannel_of_closed hclosed] at h
    · obtain ⟨rfl, rfl⟩ : n.forceTrackChannel sub.session ch = t ∧ flag = flag' := by
        simpa [addStep, Node.trackChannel_of_open hclosed] using h
      exact .client hclosed
  | broker =>
    cases flag with
    | false =>
      cases h
      exact .brokerKept
    | true =>
      cases ok with
      | false => cases h
      | true =>
        cases h
        exact .broker
  | session =>
    obtain ⟨hsync, rfl⟩ := external_eq_ok h
    exact .session hsync
  | channel =>
    obtain ⟨hadjust, rfl⟩ := external_eq_ok h
    exact .channel hadjust

theorem removeStep_commits
    (h : (removeStep ch c sub ok undone k).commit (n, flag) = .ok (t, flag')) :
    RemoveCommits n ch c k ok flag t flag' := by
  cases k with
  | hub =>
    rcases hremove : n.removeSub ch c with ⟨last, removed, m⟩
    cases removed with
    | false => simp [removeStep, hremove] at h
    | true =>
      obtain ⟨rfl, rfl⟩ : m = t ∧ last = flag' := by simpa [removeStep, hremove] using h
      exact .hub hremove
  | client =>
    cases h
    exact .client
  | broker =>
    cases flag with
    | false =>
      cases h
      exact .brokerKept
    | true =>
      cases ok with
      | false => cases h
      | true =>
        cases h
        exact .broker
  | session =>
    obtain ⟨hsync, rfl⟩ := external_eq_ok h
    exact .session hsync
  | channel =>
    obtain ⟨hadjust, rfl⟩ := external_eq_ok h
    exact .channel hadjust

end Commits

end MessageLoop
