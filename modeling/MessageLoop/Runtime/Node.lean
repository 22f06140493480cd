import MessageLoop.Session.Hub

/-!
The state a node changes on behalf of its sessions (`internal/runtime/node.go`,
`cluster_state.go`): the session objects, the hub, the broker's interest counts, the cluster
channel projection and the session snapshots stored in the cluster directory.

Calls to the broker and to the cluster stores take their outcome as an argument: a call that
fails, or a directory write that is fenced, leaves the store as it was.
-/

namespace MessageLoop

open Topics

/-- `subscriptions` holds channels and ephemeral flags; the source lists them sorted by channel.
An offset of zero is an offset that is not recorded. -/
structure SessionSnapshot where
  userID : String
  ns : String
  clientID : String
  subscriptions : Finset (String × Bool)
  channelOffsets : String → Nat

def SessionSnapshot.channels (snapshot : SessionSnapshot) : Finset String :=
  snapshot.subscriptions.image Prod.fst

structure Node where
  clusterEnabled : Bool
  sessions : SessionRef → Session
  hub : Hub
  interest : String → Nat
  projection : String → Nat
  snapshots : String → Option SessionSnapshot

namespace Node

/-- A node without subscriptions. -/
def new (clusterEnabled : Bool) (sessions : SessionRef → Session) : Node :=
  ⟨clusterEnabled, sessions, .empty, fun _ => 0, fun _ => 0, fun _ => none⟩

@[simps -fullyApplied] def setSession (n : Node) (c : SessionRef) (s : Session) : Node :=
  { n with sessions := Function.update n.sessions c s }

@[simps -fullyApplied] def setHub (n : Node) (hub : Hub) : Node :=
  { n with hub := hub }

@[simps -fullyApplied] def setInterest (n : Node) (ch : String) (count : Nat) : Node :=
  { n with interest := Function.update n.interest ch count }

@[simps -fullyApplied] def setProjection (n : Node) (ch : String) (count : Nat) : Node :=
  { n with projection := Function.update n.projection ch count }

@[simps -fullyApplied] def setSnapshot (n : Node) (sid : String) (snapshot : SessionSnapshot) : Node :=
  { n with snapshots := Function.update n.snapshots sid snapshot }

def sessionID (n : Node) (c : SessionRef) : String :=
  (n.sessions c).session

def lookupSubscriber (n : Node) (ch : String) (c : SessionRef) : Option Subscriber :=
  n.hub.lookupSubscriber ch (n.sessionID c)

def addSub (n : Node) (ch : String) (sub : Subscriber) : Except TopicError (Bool × Node) :=
  (n.hub.addSub ch (n.sessionID sub.session) sub).map fun r => (r.1, n.setHub r.2)

def readdSub (n : Node) (ch : String) (sub : Subscriber) : Node :=
  n.setHub (n.hub.readd ch (n.sessionID sub.session) sub)

def removeSub (n : Node) (ch : String) (c : SessionRef) : Bool × Bool × Node :=
  let r := n.hub.removeSub ch (n.sessionID c)
  (r.1, r.2.1, n.setHub r.2.2)

def trackChannel (n : Node) (c : SessionRef) (ch : String) : Bool × Node :=
  let r := (n.sessions c).trackChannel ch
  (r.1, n.setSession c r.2)

def forceTrackChannel (n : Node) (c : SessionRef) (ch : String) : Node :=
  n.setSession c ((n.sessions c).forceTrackChannel ch)

def untrackChannel (n : Node) (c : SessionRef) (ch : String) : Node :=
  n.setSession c ((n.sessions c).untrackChannel ch)

/-- `Subscribe` of the broker; a pattern it cannot route is one of its errors. -/
def brokerSubscribe (n : Node) (ch : String) (ok : Bool) : Option Node :=
  if ok then some (n.setInterest ch (n.interest ch + 1)) else none

def brokerUnsubscribe (n : Node) (ch : String) (ok : Bool) : Option Node :=
  if ok then some (n.setInterest ch (n.interest ch - 1)) else none

/-- Ephemeral flags and delivered offsets are read back from the hub's records. -/
def clusterSessionSnapshot (n : Node) (c : SessionRef) : SessionSnapshot where
  userID := (n.sessions c).user
  ns := (n.sessions c).ns
  clientID := (n.sessions c).client
  subscriptions := (n.sessions c).subscribedChannels.image fun ch =>
    (ch, ((n.lookupSubscriber ch c).map Subscriber.ephemeral).getD false)
  channelOffsets := fun ch =>
    if ch ∈ (n.sessions c).subscribedChannels then
      ((n.lookupSubscriber ch c).map Subscriber.deliveredOffset).getD 0
    else 0

def syncClusterSessionState (n : Node) (c : SessionRef) (ok : Bool) : Option Node :=
  if n.clusterEnabled then
    if ok then some (n.setSnapshot (n.sessionID c) (n.clusterSessionSnapshot c)) else none
  else some n

def adjustClusterChannelSubscriptions (n : Node) (ch : String) (delta : Int) (ok : Bool) :
    Option Node :=
  if n.clusterEnabled then
    if ok then some (n.setProjection ch (n.projection ch + delta).toNat) else none
  else some n

def tracked (n : Node) (c : SessionRef) : Finset String :=
  (n.sessions c).subscribedChannels

section Updates
variable {n : Node} {ch sid : String} {c c' : SessionRef} {k : Nat} {snapshot : SessionSnapshot}

@[simp] theorem sessionID_forceTrackChannel :
    (n.forceTrackChannel c ch).sessionID c' = n.sessionID c' := by
  by_cases hc : c' = c
  · subst hc
    simp [sessionID, forceTrackChannel, setSession, Session.forceTrackChannel]
  · simp [sessionID, forceTrackChannel, setSession, Function.update_of_ne hc]

@[simp] theorem sessionID_untrackChannel :
    (n.untrackChannel c ch).sessionID c' = n.sessionID c' := by
  by_cases hc : c' = c
  · subst hc
    simp [sessionID, untrackChannel, setSession, Session.untrackChannel]
  · simp [sessionID, untrackChannel, setSession, Function.update_of_ne hc]

theorem trackChannel_of_open (hopen : (n.sessions c).state ≠ .closed) :
    n.trackChannel c ch = (false, n.forceTrackChannel c ch) := by
  simp [trackChannel, forceTrackChannel, Session.trackChannel, Session.forceTrackChannel, hopen]

@[simp] theorem tracked_forceTrackChannel :
    (n.forceTrackChannel c ch).tracked c = insert ch (n.tracked c) := by
  simp [tracked, forceTrackChannel, setSession, Session.forceTrackChannel]

@[simp] theorem tracked_untrackChannel :
    (n.untrackChannel c ch).tracked c = (n.tracked c).erase ch := by
  simp [tracked, untrackChannel, setSession, Session.untrackChannel]

@[simp] theorem sessionID_setHub {hub : Hub} : (n.setHub hub).sessionID c = n.sessionID c := rfl

@[simp] theorem sessionID_setInterest : (n.setInterest ch k).sessionID c = n.sessionID c := rfl

@[simp] theorem sessionID_setSnapshot :
    (n.setSnapshot sid snapshot).sessionID c = n.sessionID c := rfl

@[simp] theorem setSession_self : n.setSession c (n.sessions c) = n := by
  simp [setSession]

theorem trackChannel_of_closed (hclosed : (n.sessions c).state = .closed) :
    n.trackChannel c ch = (true, n) := by
  simp [trackChannel, Session.trackChannel, hclosed]

@[simp] theorem setHub_self : n.setHub n.hub = n := rfl

@[simp] theorem setHub_setHub {a b : Hub} : (n.setHub a).setHub b = n.setHub b := rfl

@[simp] theorem setInterest_self : n.setInterest ch (n.interest ch) = n := by
  simp [setInterest]

@[simp] theorem setInterest_setInterest {j : Nat} :
    (n.setInterest ch j).setInterest ch k = n.setInterest ch k := by
  simp [setInterest]

@[simp] theorem setSnapshot_setSnapshot {a b : SessionSnapshot} :
    (n.setSnapshot sid a).setSnapshot sid b = n.setSnapshot sid b := by
  simp [setSnapshot]

@[simp] theorem clusterSessionSnapshot_setInterest :
    (n.setInterest ch k).clusterSessionSnapshot c = n.clusterSessionSnapshot c := rfl

@[simp] theorem clusterSessionSnapshot_setSnapshot :
    (n.setSnapshot sid snapshot).clusterSessionSnapshot c = n.clusterSessionSnapshot c := rfl

theorem setInterest_setSnapshot :
    (n.setSnapshot sid snapshot).setInterest ch k = (n.setInterest ch k).setSnapshot sid snapshot :=
  rfl

theorem sync_frame {t : Node} {ok : Bool} (h : n.syncClusterSessionState c ok = some t) :
    t.sessions = n.sessions ∧ t.hub = n.hub := by
  unfold syncClusterSessionState at h
  split_ifs at h <;> cases h <;> exact ⟨rfl, rfl⟩

theorem addSub_eq_ok {t : Node} {sub : Subscriber} {first : Bool}
    (h : n.addSub ch sub = .ok (first, t)) :
    ∃ hub, n.hub.addSub ch (n.sessionID sub.session) sub = .ok (first, hub) ∧ t = n.setHub hub := by
  unfold addSub at h
  cases hadd : n.hub.addSub ch (n.sessionID sub.session) sub with
  | error e => simp [hadd, Except.map] at h
  | ok r =>
    obtain ⟨rfl, rfl⟩ : r.1 = first ∧ n.setHub r.2 = t := by simpa [hadd, Except.map] using h
    exact ⟨r.2, rfl, rfl⟩

theorem removeSub_of_added {t : Node} {sub : Subscriber} {first : Bool}
    (hnone : n.lookupSubscriber ch c = none)
    (hadd : n.hub.addSub ch (n.sessionID c) sub = .ok (first, t.hub))
    (hid : t.sessionID c = n.sessionID c) :
    t.removeSub ch c = (first, true, t.setHub n.hub) := by
  simp [removeSub, hid, Hub.removeSub_addSub hnone hadd]

end Updates

end Node

end MessageLoop
