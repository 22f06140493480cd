import MessageLoop.Lib.Transition
import MessageLoop.Runtime.SubscriptionCalls

/-!
Connect handlings that name one session ID on one node (`handleConnect` and `finishConnect` in
`internal/session/client.go`, `AddClient` in `internal/runtime/node.go`, `Close` in
`internal/session/session.go`), all authenticated for the same user.

Connection `i` owns the session object `i`, created when the Connect stages the ID. The outcome of
the directory lookup, of the syncs and of every other external call is part of the label. A
session's first Connect, which was given its ID by the server, acts as one that misses both
lookups.
-/

namespace MessageLoop.Connect

abbrev Subscriptions := List (String × Bool)

/-- Where one Connect handling stands. Phases that name a session work on that object: the
connection's own, or the `existing` one of a local resume. -/
inductive Phase where
  | lookup
  | identity (existing : SessionRef)
  | detach (existing : SessionRef)
  | readTemp (existing : SessionRef)
  | attach (existing : SessionRef) (handoff : Attachment)
  | demote (existing : SessionRef)
  | closeExisting (existing : SessionRef)
  | resume
  | readOwn (snapshot : Subscriptions)
  | attachOwn (snapshot : Subscriptions) (att : Attachment)
  | authenticate (c : SessionRef) (resumedLocal : Bool) (snapshot : Subscriptions)
  | addHub (snapshot : Subscriptions)
  | addSync (snapshot : Subscriptions)
  | removeHub
  | sync (existing : SessionRef)
  | restore (rest : Subscriptions)
  | restoring (rest : Subscriptions) (call : Nat)
  | subscribe (c : SessionRef) (rest : Subscriptions) (added : List String)
  | subscribing (c : SessionRef) (rest : Subscriptions) (added : List String) (ch : String)
      (already : Bool) (call : Nat)
  | rollback (c : SessionRef) (added : List String)
  | rollingBack (c : SessionRef) (added : List String) (call : Nat)
  | close (c : SessionRef)
  | returned
  deriving DecidableEq, Repr

structure Conn where
  request : Subscriptions
  phase : Phase
  deriving DecidableEq, Repr

/-- The `Close` of a session object: `removing` lists its `RemoveSubscription` calls. -/
inductive Closing where
  | open
  | removing (calls : List Nat)
  | finished
  deriving DecidableEq, Repr

structure State where
  sessionID : String
  user : String
  ns : String
  node : Node
  calls : List SubCall
  conns : List Conn
  closing : SessionRef → Closing

/-- What `ResumeRemoteSession` returns: nothing to resume, an error, or a claimed session. -/
inductive ResumeOutcome where
  | none
  | error
  | claimed (client : String) (subscriptions : Subscriptions) (leaseVersion : Nat)
  deriving DecidableEq, Repr

/-- `channels` is the order in which a `Close` happens to range over the tracked set. -/
inductive Action where
  | connect (request : Subscriptions)
  | handler (i : Nat) (ok : Bool)
  | resume (i : Nat) (outcome : ResumeOutcome)
  | handlerClose (i : Nat) (channels : List String)
  | close (c : SessionRef) (channels : List String)
  | unregister (c : SessionRef)
  | call (k : Nat) (ok : Bool)
  deriving DecidableEq, Repr

namespace State

def start (sessionID user ns : String) (node : Node) : State where
  sessionID := sessionID
  user := user
  ns := ns
  node := node
  calls := []
  conns := []
  closing := fun _ => .open

def setPhase (s : State) (i : Nat) (conn : Conn) (phase : Phase) : State :=
  { s with conns := s.conns.set i { conn with phase := phase } }

def setNode (s : State) (node : Node) : State :=
  { s with node := node }

def setSession (s : State) (c : SessionRef) (session : Session) : State :=
  s.setNode (s.node.setSession c session)

def setHub (s : State) (hub : Hub) : State :=
  s.setNode (s.node.setHub hub)

def spawn (s : State) (calls : List SubCall) : State :=
  { s with calls := s.calls ++ calls }

def callReturned (s : State) (k : Nat) : Bool :=
  (s.calls[k]?.map SubCall.returned).getD false

end State

def canonical (s : State) (c : SessionRef) : SessionRef :=
  (s.node.sessions c).delegate.getD c

/-- `Close` up to the start of its subscription removals; a closed session is left alone. -/
def beginClose (s : State) (c : SessionRef) (channels : List String) : Option State :=
  let target := canonical s c
  let session := s.node.sessions target
  if session.state = .closed then some s
  else if channels.Nodup ∧ channels.toFinset = session.subscribedChannels then
    let closing := (List.range channels.length).map (s.calls.length + ·)
    some { (s.setSession target session.markClosed).spawn
        (channels.map (SubCall.remove target)) with
      closing := Function.update s.closing target (.removing closing) }
  else none

/-- Errors that fail a requested channel softly: a bad topic or an unroutable pattern. -/
def soft : SagaStep → Bool
  | .hub | .broker => true
  | _ => false

def authenticated (s : State) (session : Session) : Session :=
  { session with
    authenticated := true
    user := s.user
    ns := s.ns
    clusterLeaseVersion :=
      if session.clusterLeaseVersion = 0 then 1 else session.clusterLeaseVersion }

/-- One step of the handling on connection `i`; closing steps have labels of their own. -/
def handle (s : State) (i : Nat) (conn : Conn) (ok : Bool) : Option State :=
  match conn.phase with
  | .lookup =>
    match s.node.hub.lookupSession s.sessionID with
    | some existing => some (s.setPhase i conn (.identity existing))
    | none => some (s.setPhase i conn .resume)
  | .identity e =>
    let existing := s.node.sessions e
    some ((s.setSession e { existing with
      user := s.user
      ns := s.ns
      clusterLeaseVersion := existing.clusterLeaseVersion + 1 }).setPhase i conn (.detach e))
  | .detach e => some ((s.setSession e (s.node.sessions e).detach).setPhase i conn (.readTemp e))
  | .readTemp e =>
    match (s.node.sessions i).attachment with
    | none => some (s.setPhase i conn (.close i))
    | some att => some (s.setPhase i conn (.attach e att))
  | .attach e handoff =>
    match (s.node.sessions e).attach (some handoff) ok with
    | .ok existing => some ((s.setSession e existing).setPhase i conn (.demote e))
    | .error _ => some (s.setPhase i conn (.closeExisting e))
  | .demote e =>
    some ((s.setSession i { s.node.sessions i with delegate := some e, attachment := none }).setPhase
      i conn (.authenticate e true []))
  | .readOwn snapshot =>
    match (s.node.sessions i).attachment with
    | none => some (s.setPhase i conn (.close i))
    | some att => some (s.setPhase i conn (.attachOwn snapshot att))
  | .attachOwn snapshot att =>
    match (s.node.sessions i).attach (some att) ok with
    | .ok session => some ((s.setSession i session).setPhase i conn
      (.authenticate i false snapshot))
    | .error _ => some (s.setPhase i conn (.close i))
  | .authenticate c resumedLocal snapshot =>
    some ((s.setSession c (authenticated s (s.node.sessions c))).setPhase i conn
      (if resumedLocal then .sync c else .addHub snapshot))
  | .addHub snapshot =>
    if ok then some ((s.setHub (s.node.hub.add s.sessionID i)).setPhase i conn (.addSync snapshot))
    else some (s.setPhase i conn .returned)
  | .addSync snapshot =>
    match s.node.syncClusterSessionState i ok with
    | some node => some ((s.setNode node).setPhase i conn (.restore snapshot))
    | none => some (s.setPhase i conn .removeHub)
  | .removeHub =>
    some ((s.setHub (s.node.hub.removeSession s.sessionID)).setPhase i conn (.close i))
  | .sync e =>
    match s.node.syncClusterSessionState e ok with
    | some node => some ((s.setNode node).setPhase i conn (.subscribe e conn.request []))
    | none => some (s.setPhase i conn (.close e))
  | .restore [] => some (s.setPhase i conn (.subscribe i conn.request []))
  | .restore ((ch, ephemeral) :: rest) =>
    some ((s.spawn [SubCall.restore i ch ephemeral]).setPhase i conn
      (.restoring rest s.calls.length))
  | .restoring rest k =>
    if s.callReturned k then some (s.setPhase i conn (.restore rest)) else none
  | .subscribe _ [] _ => some (s.setPhase i conn .returned)
  | .subscribe c ((ch, ephemeral) :: rest) added =>
    let already := decide (ch ∈ (s.node.sessions c).subscribedChannels)
    -- A channel beyond the subscription limit fails the handling.
    if ¬ ok ∧ ¬ already then some (s.setPhase i conn (.rollback c added))
    else
      some ((s.spawn [SubCall.add c ch ephemeral]).setPhase i conn
        (.subscribing c rest added ch already s.calls.length))
  | .subscribing c rest added ch already k =>
    match s.calls[k]?.map SubCall.pc with
    | some (.returned .ok) =>
      some (s.setPhase i conn (.subscribe c rest (if already then added else added ++ [ch])))
    | some (.returned (.failed step)) =>
      if soft step ∧ ok then some (s.setPhase i conn (.subscribe c rest added))
      else some (s.setPhase i conn (.rollback c added))
    | _ => none
  | .rollback _ [] => some (s.setPhase i conn .returned)
  | .rollback c (ch :: rest) =>
    some ((s.spawn [SubCall.remove c ch]).setPhase i conn (.rollingBack c rest s.calls.length))
  | .rollingBack c rest k =>
    if s.callReturned k then some (s.setPhase i conn (.rollback c rest)) else none
  | .resume | .closeExisting _ | .close _ | .returned => none

/-- `ResumeRemoteSession`: a claimed session is adopted, channels included. -/
def resumeRemote (s : State) (i : Nat) (conn : Conn) : ResumeOutcome → State
  | .none => s.setPhase i conn (.readOwn [])
  | .error => s.setPhase i conn (.close i)
  | .claimed client subscriptions leaseVersion =>
    (s.setSession i ((s.node.sessions i).adoptIdentity s.sessionID s.ns s.user client
      (subscriptions.map Prod.fst) leaseVersion)).setPhase i conn (.readOwn subscriptions)

/-- A `Close` that the handling itself makes. The handling has returned once it has begun: it does
nothing afterwards but wait for it. -/
def handlerClose (s : State) (i : Nat) (conn : Conn) (channels : List String) : Option State :=
  match conn.phase with
  | .closeExisting e => (beginClose s e channels).map (·.setPhase i conn (.close i))
  | .close c => (beginClose s c channels).map (·.setPhase i conn .returned)
  | _ => none

def step (s : State) : Action → Option State
  | .connect request =>
    some { s.setSession s.conns.length (.newClient s.sessionID
        ⟨s.conns.length, s.conns.length, .protobuf⟩) with
      conns := s.conns ++ [⟨request, .lookup⟩] }
  | .handler i ok => s.conns[i]?.bind fun conn => handle s i conn ok
  | .resume i outcome =>
    s.conns[i]?.bind fun conn =>
      if conn.phase = .resume then some (resumeRemote s i conn outcome) else none
  | .handlerClose i channels => s.conns[i]?.bind fun conn => handlerClose s i conn channels
  | .close c channels => if c < s.conns.length then beginClose s c channels else none
  | .unregister c =>
    match s.closing c with
    | .removing calls =>
      if calls.all s.callReturned then
        some { s.setHub (s.node.hub.removeSessionIfMatches s.sessionID c).2 with
          closing := Function.update s.closing c .finished }
      else none
    | _ => none
  | .call k ok =>
    (Calls.step ⟨s.node, s.calls⟩ k ok).map fun r => { s with node := r.node, calls := r.calls }

abbrev run : State → List Action → Option State :=
  Transition.run step

end MessageLoop.Connect
