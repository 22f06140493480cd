import MessageLoop.Cluster.Resume
import MessageLoop.Session.Broadcast

/-!
A session that moves from node to node by cross-node resumes, and the snapshots its owners store
(`internal/runtime/cluster_resume.go`, `finishConnect` in `internal/session/client.go`,
`AddClient` in `internal/runtime/node.go`).

Each owner serves subscription calls, deliveries and lease refreshes. A resume reads lease and
snapshot, claims the lease and takes the session over; the new owner registers the session, which
stores a snapshot, and then restores the subscriptions. Nothing waits for the connection, so it
may drop, and the next resume begin, at any point.
-/

namespace MessageLoop

/-- What the end of a broadcast on an exact channel records for the clients it has reached. -/
def Node.recordDelivered (n : Node) (ch : String) (offset : Nat) (clients : List String) : Node :=
  n.setHub { n.hub with
    subs := Function.update n.hub.subs ch
      (Broadcast.recordDeliveredOffsets (n.hub.subs ch) offset clients fun _ => true) }

/-- The cursor of a resumed channel within one broker epoch, and the offset its history is read
from; without a recorded offset the recovery is skipped. -/
def recoveryCursor (snapshot : SessionSnapshot) (ch : String) : Option (Nat × Nat) :=
  if snapshot.channelOffsets ch = 0 then none
  else some (snapshot.channelOffsets ch, snapshot.channelOffsets ch + 1)

namespace Chain

open Resume (OwnerCall)

/-- A node that has no subscription of the session, and the connection that resumes it there. -/
structure Host (sid : String) where
  self : NodeIdentity
  node : Node
  session : SessionRef
  authUser : String
  authNs : String
  enabled : node.clusterEnabled
  unknown : ∀ ch, node.hub.lookupSubscriber ch sid = none

inductive Resuming (sid : String) where
  | idle
  | getSnapshot (host : Host sid) (lease : SessionLease)
  | claim (host : Host sid) (lease : SessionLease) (snapshot : SessionSnapshot)
  | takeover (host : Host sid) (lease : SessionLease) (snapshot : SessionSnapshot)

/-- Where the connect handling on the owner stands: in the sync of `AddClient`, restoring the
subscriptions that are left, or failed. -/
inductive Connecting where
  | adding (subscriptions : Finset (String × Bool)) (sync : Sync)
  | restoring (subscriptions : Finset (String × Bool))
  | refused

/-- `syncs` are the refreshes in progress, with what earlier owners have left. `subscribed` holds
the acknowledged subscriptions that have not been taken back: the ephemeral flag, and the offset
recorded in the snapshot the session was last resumed from. -/
structure State (sid : String) where
  self : NodeIdentity
  node : Node
  session : SessionRef
  calls : List OwnerCall
  syncs : List Sync
  connecting : Connecting
  directory : Directory
  resuming : Resuming sid
  subscribed : String → Option (Bool × Nat)

/-- `channels` is the order in which the snapshot happens to list its channels. -/
inductive Action (sid : String) where
  | add (ch : String) (ephemeral : Bool)
  | remove (ch : String)
  | call (k : Nat) (ok : Bool)
  | refresh
  | sync (k : Nat) (ok : Bool)
  | straggler (y : Sync)
  | deliver (ch : String) (offset : Nat) (clients : List String)
  | drop
  | getLease (host : Host sid)
  | getSnapshot
  | claim
  | takeover (channels : List String)
  | addClient (ok : Bool)
  | restore (ch : String) (ephemeral : Bool)

def Connecting.sync : Connecting → Option Sync
  | .adding _ y => some y
  | _ => none

def Connecting.pending : Connecting → Finset (String × Bool)
  | .adding subscriptions _ | .restoring subscriptions => subscriptions
  | .refused => ∅

variable {sid : String}

def Host.config (host : Host sid) (lease : SessionLease) : Resume.Config :=
  ⟨lease.owner, host.self, sid, host.session, host.authUser, host.authNs⟩

/-- `AdoptIdentity`, and the identity fields that `finishConnect` sets before it registers the
session. -/
def Host.adoptIdentity (host : Host sid) (lease : SessionLease) (snapshot : SessionSnapshot)
    (channels : List String) : Session :=
  let client := host.node.sessions host.session
  let adopted := client.adoptIdentity sid
    (if snapshot.ns = "" then client.ns else snapshot.ns) snapshot.userID snapshot.clientID channels
    (if 0 < lease.leaseVersion then lease.leaseVersion + 1 else 0)
  { adopted with
    authenticated := true
    user := if host.authUser ≠ "" then host.authUser else adopted.user
    ns := if host.authNs ≠ "" then host.authNs else adopted.ns
    clusterLeaseVersion :=
      if adopted.clusterLeaseVersion = 0 then 1 else adopted.clusterLeaseVersion }

def Host.adopt (host : Host sid) (lease : SessionLease) (snapshot : SessionSnapshot)
    (channels : List String) : Node :=
  (host.node.setSession host.session (host.adoptIdentity lease snapshot channels)).setHub
    (host.node.hub.add sid host.session)

namespace State

def version (s : State sid) : Nat :=
  (s.node.sessions s.session).leaseVersion

def inFlight (s : State sid) : List Sync :=
  s.syncs ++ s.calls.filterMap OwnerCall.sync ++ s.connecting.sync.toList

def spawn (s : State sid) (c : SubCall) : State sid :=
  { s with calls := s.calls ++ [⟨c, none⟩] }

end State

/-- A subscription counts from its acknowledgement, and until `RemoveSubscription` of the channel
takes its lock. -/
def acknowledge (subscribed : String → Option (Bool × Nat)) (before after : SubCall) :
    String → Option (Bool × Nat) :=
  match before.op, before.pc, after.pc with
  | .add ephemeral, .commit .channel, .returned .ok =>
    Function.update subscribed before.channel (some (ephemeral, 0))
  | .remove, .start, _ => Function.update subscribed before.channel none
  | _, _, _ => subscribed

def callStep (s : State sid) (k : Nat) (ok : Bool) : Option (State sid) :=
  s.calls[k]?.bind fun c =>
    match c.sync with
    | some y => (y.step s.self s.directory ok).map fun r =>
        { s with directory := r.1, calls := s.calls.set k (c.afterSync r.2) }
    | none =>
      if c.call.atSync ∧ s.node.clusterEnabled then
        some { s with
          calls := s.calls.set k ⟨c.call, some (s.node.beginSync s.self s.session)⟩ }
      else if Calls.blocked ⟨s.node, s.calls.map OwnerCall.call⟩ c.call then none
      else (c.call.step s.node ok).map fun r =>
        { s with
          node := r.1
          calls := s.calls.set k ⟨r.2, none⟩
          subscribed := acknowledge s.subscribed c.call r.2 }

def syncStep (s : State sid) (k : Nat) (ok : Bool) : Option (State sid) :=
  s.syncs[k]?.bind fun y =>
    (y.step y.desired.owner s.directory ok).map fun r =>
      { s with directory := r.1, syncs := s.syncs.set k r.2 }

def getLease (s : State sid) (host : Host sid) : Option (State sid) :=
  (s.directory.leases sid).map fun lease =>
    { s with resuming :=
        if Resume.denied (host.config lease) lease then .idle else .getSnapshot host lease }

def getSnapshot (s : State sid) : Option (State sid) :=
  match s.resuming with
  | .getSnapshot host lease =>
    (s.directory.snapshots sid).map fun snapshot =>
      { s with resuming := .claim host lease snapshot }
  | _ => none

def claim (s : State sid) : Option (State sid) :=
  match s.resuming with
  | .claim host lease snapshot =>
    (s.directory.compareAndSwapSessionLease (some lease)
        (Resume.desiredLease (host.config lease) lease)).map fun d =>
      { s with directory := d, resuming := .takeover host lease snapshot }
  | _ => none

/-- The old owner has been fenced or is dead. Its syncs may still be in progress. -/
def takeover (s : State sid) (channels : List String) : Option (State sid) :=
  match s.resuming with
  | .takeover host lease snapshot =>
    if channels.Nodup ∧ channels.toFinset = snapshot.channels then
      let node := host.adopt lease snapshot channels
      some { s with
        self := host.self
        node := node
        session := host.session
        calls := []
        syncs := s.inFlight
        connecting := .adding snapshot.subscriptions (node.beginSync host.self host.session)
        resuming := .idle
        subscribed := fun ch => (s.subscribed ch).map fun r => (r.1, snapshot.channelOffsets ch) }
    else none
  | _ => none

def addClient (s : State sid) (ok : Bool) : Option (State sid) :=
  match s.connecting with
  | .adding subscriptions y =>
    (y.step s.self s.directory ok).map fun r =>
      match r.2.pc with
      | .returned .ok => { s with directory := r.1, connecting := .restoring subscriptions }
      | .returned _ => { s with
          directory := r.1
          node := s.node.setHub (s.node.hub.removeSession sid)
          connecting := .refused }
      | _ => { s with directory := r.1, connecting := .adding subscriptions r.2 }
  | _ => none

def restore (s : State sid) (ch : String) (ephemeral : Bool) : Option (State sid) :=
  match s.connecting with
  | .restoring subscriptions =>
    if (ch, ephemeral) ∈ subscriptions then
      some { s.spawn (.restore s.session ch ephemeral) with
        connecting := .restoring (subscriptions.erase (ch, ephemeral)) }
    else none
  | _ => none

def step (s : State sid) : Action sid → Option (State sid)
  | .add ch ephemeral => some (s.spawn (.add s.session ch ephemeral))
  | .remove ch => some (s.spawn (.remove s.session ch))
  | .call k ok => callStep s k ok
  | .refresh => some { s with syncs := s.syncs ++ [s.node.beginSync s.self s.session] }
  | .sync k ok => syncStep s k ok
  | .straggler y =>
    -- What an earlier owner begins only now, at the version it had.
    if y.desired.sessionID = sid ∧ y.desired.leaseVersion < s.version ∧ y.pc = .get then
      some { s with syncs := s.syncs ++ [y] }
    else none
  | .deliver ch offset clients => some { s with node := s.node.recordDelivered ch offset clients }
  | .drop =>
    some { s with node := s.node.setSession s.session (s.node.sessions s.session).detach }
  | .getLease host => getLease s host
  | .getSnapshot => getSnapshot s
  | .claim => claim s
  | .takeover channels => takeover s channels
  | .addClient ok => addClient s ok
  | .restore ch ephemeral => restore s ch ephemeral

abbrev run : State sid → List (Action sid) → Option (State sid) :=
  Transition.run step

section Steps
variable {s s' : State sid} {k : Nat} {ok : Bool}

theorem claim_cases (h : claim s = some s') :
    ∃ host lease snapshot d, s.resuming = .claim host lease snapshot ∧
      s.directory.compareAndSwapSessionLease (some lease)
        (Resume.desiredLease (host.config lease) lease) = some d ∧
      s' = { s with directory := d, resuming := .takeover host lease snapshot } := by
  unfold claim at h
  split at h
  · rename_i host lease snapshot hresuming
    obtain ⟨d, hd, rfl⟩ := Option.map_eq_some_iff.mp h
    exact ⟨host, lease, snapshot, d, hresuming, hd, rfl⟩
  · cases h

theorem addClient_cases (h : addClient s ok = some s') :
    ∃ subscriptions y r, s.connecting = .adding subscriptions y ∧
      y.step s.self s.directory ok = some r ∧
      (s' = { s with directory := r.1, connecting := .restoring subscriptions } ∨
        s' = { s with
          directory := r.1
          node := s.node.setHub (s.node.hub.removeSession sid)
          connecting := .refused } ∨
        s' = { s with directory := r.1, connecting := .adding subscriptions r.2 }) := by
  unfold addClient at h
  split at h
  · rename_i subscriptions y hconnecting
    obtain ⟨r, hr, rfl⟩ := Option.map_eq_some_iff.mp h
    refine ⟨subscriptions, y, r, hconnecting, hr, ?_⟩
    split
    · exact .inl rfl
    · exact .inr (.inl rfl)
    · exact .inr (.inr rfl)
  · cases h

end Steps

/-- A session that its owner has just connected for the first time, without subscriptions. -/
structure Begun (s : State sid) : Prop where
  named : sid ≠ ""
  enabled : s.node.clusterEnabled
  sessionID : s.node.sessionID s.session = sid
  lease : ∃ lease, s.directory.leases sid = some lease ∧ lease.HeldBy sid s.self s.version
  idle : s.calls = [] ∧ s.syncs = [] ∧ s.connecting = .restoring ∅ ∧ s.resuming = .idle
  unknown : ∀ ch, s.node.lookupSubscriber ch s.session = none
  unsubscribed : s.subscribed = fun _ => none

end Chain

end MessageLoop
