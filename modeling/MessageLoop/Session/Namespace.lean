import MessageLoop.Lib.Transition
import MessageLoop.Authz.Identity
import MessageLoop.Runtime.Fence
import MessageLoop.Runtime.Subscription

/-!
Sessions and their namespaces (`internal/session/namespace.go`, `client.go`,
`internal/runtime/cluster_resume.go`, `cluster_commands.go`): how a session gets its namespace, and
every way in which it gets and loses subscriptions.

Nodes share the snapshots of the cluster directory. Envelopes and Server API commands are handled
one at a time; `Close` marks its session and then removes its subscriptions one by one. Answers of
the auth proxy, of the broker and of the directory are part of the label; error envelopes are sent.
-/

namespace MessageLoop.Namespace

open Topics Authz

structure Config where
  requireAuth : Bool
  serverNamespace : String
  maxSubscriptionsPerClient : Nat
  authorizer : Authorizer
  validated : if serverNamespace = "" then requireAuth = true
    else validNamespace serverNamespace = true

/-- The error envelope `NAMESPACE_MISMATCH` of type `acl_error`, with what its message names. -/
structure NamespaceMismatch where
  channel : String
  ns : String
  deriving DecidableEq, Repr

def checkNamespace (s : Session) (channel : String) : Except NamespaceMismatch Unit :=
  if s.ns = "" then .ok ()
  else if namespaceOf channel = .ok s.ns then .ok ()
  else .error ⟨channel, s.ns⟩

def precheckChannel (s : Session) (channel : String) : Except NamespaceMismatch Unit :=
  if channel = "" then .ok () else checkNamespace s channel

/-- Empty and wildcard channels are left to the handler, which refuses them itself. -/
def precheckExactChannel (s : Session) (channel : String) : Except NamespaceMismatch Unit :=
  if channel = "" ∨ isWildcard channel then .ok () else checkNamespace s channel

/-- A requested subscription, with the answers that handling it gets: the proxy's, the outcomes of
adding it and of removing it again, and whether a broker that refuses it does so with
`ErrPatternNotRoutable`. -/
structure Request where
  channel : String
  ephemeral : Bool
  token : String
  proxyAllows : Bool
  add : Outcomes
  undo : Outcomes
  notRoutable : Bool

/-- A channel to unsubscribe from, or one whose subscription is reviewed: `revoked` tells that a
proxy refuses it. -/
structure Removal where
  channel : String
  revoked : Bool
  out : Outcomes

/-- The envelopes of an authenticated session that carry channels of subscriptions or publications. -/
inductive Envelope where
  | subscribe (subs : List Request)
  | unsubscribe (channels : List Removal)
  | subRefresh (channels : List Removal)
  | publish (channel : String)

/-- The envelope that is dispatched, if any. Of a Subscribe, the channels inside the namespace are. -/
def precheckNamespace (s : Session) : Envelope → Option Envelope
  | .subscribe subs => some (.subscribe (subs.filter fun sub => (precheckChannel s sub.channel).isOk))
  | .unsubscribe channels =>
    if channels.all fun r => (precheckChannel s r.channel).isOk then some (.unsubscribe channels)
    else none
  | .subRefresh channels =>
    if channels.all fun r => (precheckChannel s r.channel).isOk then some (.subRefresh channels)
    else none
  | .publish channel =>
    if (precheckExactChannel s channel).isOk then some (.publish channel) else none

inductive SubscribeError where
  | namespaceMismatch (e : NamespaceMismatch)
  | request (e : TopicError)
  | permissionDenied
  | proxy
  deriving DecidableEq, Repr

def checkSubscribeACL (cfg : Config) (s : Session) (sub : Request) : Except SubscribeError Unit :=
  match checkNamespace s sub.channel with
  | .error e => .error (.namespaceMismatch e)
  | .ok () =>
    match compileInterest sub.channel with
    | .error e => .error (.request e)
    | .ok _ =>
      if !(decide cfg.authorizer ⟨s.user⟩ .subscribePattern sub.channel).allow then
        .error .permissionDenied
      else if !sub.proxyAllows then .error .proxy
      else .ok ()

section Handlers

inductive Return where
  | ok
  | failed
  | disconnect
  deriving DecidableEq, Repr

def removeEach (c : SessionRef) (n : Node) (channels : List (String × Outcomes)) : Node :=
  channels.foldl (fun n r => (removeSubscription n r.1 c r.2).1) n

def softError (notRoutable : Bool) : String × StepError → Bool
  | (_, .topic _) => true
  | (name, _) => name = "broker.Subscribe" && notRoutable

def overLimit (cfg : Config) (c : SessionRef) (n : Node) (channel : String) : Prop :=
  0 < cfg.maxSubscriptionsPerClient ∧ channel ∉ n.tracked c ∧
    cfg.maxSubscriptionsPerClient ≤ (n.tracked c).card

instance (cfg : Config) (c : SessionRef) (n : Node) (channel : String) :
    Decidable (overLimit cfg c n channel) :=
  inferInstanceAs (Decidable (_ ∧ _))

/-- The loop over requested subscriptions that Subscribe and Connect share. What it has added is
removed again when a subscription fails; at the subscription limit, only by Connect. `record` is done
for every subscription that is made, and told whether the session had it already. -/
def subscribeEach {σ : Type} (cfg : Config) (c : SessionRef) (undoAtLimit : Bool)
    (record : Node → Request → Bool → σ → σ) :
    Node → List Request → List (String × Outcomes) → σ → Node × Return × σ
  | n, [], _, x => (n, .ok, x)
  | n, sub :: rest, added, x =>
    match checkSubscribeACL cfg (n.sessions c) sub with
    | .error _ => subscribeEach cfg c undoAtLimit record n rest added x
    | .ok () =>
      let already := sub.channel ∈ n.tracked c
      if overLimit cfg c n sub.channel then
        (if undoAtLimit then removeEach c n added else n, .disconnect, x)
      else
        match addSubscription n sub.channel (newSubscriber c sub.ephemeral) sub.add with
        | (n, none) => subscribeEach cfg c undoAtLimit record n rest
            (if already then added else added ++ [(sub.channel, sub.undo)])
            (record n sub already x)
        | (n, some err) =>
          if softError sub.notRoutable err then subscribeEach cfg c undoAtLimit record n rest added x
          else (removeEach c n added, .failed, x)

def handleUnsubscribe (n : Node) (c : SessionRef) (channels : List Removal) : Node :=
  removeEach c n (channels.map fun r => (r.channel, r.out))

def handleSubRefresh (n : Node) (c : SessionRef) (channels : List Removal) : Node :=
  removeEach c n ((channels.filter Removal.revoked).map fun r => (r.channel, r.out))

def close (n : Node) (c : SessionRef) : Node :=
  n.setSession c (n.sessions c).markClosed

/-- A shell's envelopes are handled by the session it delegates to. -/
def canonical (n : Node) (c : SessionRef) : SessionRef :=
  (n.sessions c).delegate.getD c

/-- An envelope other than Connect. `serving` tells whether the connection still serves the
session: only then does a disconnect close it. -/
def handleMessage (cfg : Config) (n : Node) (c : SessionRef) (envelope : Envelope)
    (serving : Bool) : Node :=
  let s := n.sessions c
  if s.state = .closed then n
  else if !s.authenticated then if serving then close n c else n
  else
    match precheckNamespace s envelope with
    | none => n
    | some (.subscribe subs) =>
      match subscribeEach cfg c false (fun _ _ _ => id) n subs [] () with
      | (n, .disconnect, _) => if serving then close n c else n
      | (n, _, _) => n
    | some (.unsubscribe channels) => handleUnsubscribe n c channels
    | some (.subRefresh channels) => handleSubRefresh n c channels
    -- A publication is handed to the broker; its delivery reads the subscriptions.
    | some (.publish _) => n

end Handlers

section Connect

/-- `proxied` tells that the auth proxy has authenticated the connection. -/
structure Identity where
  user : String
  ns : String
  proxied : Bool
  deriving DecidableEq, Repr

structure ConnectRequest where
  sessionID : String
  token : String
  clientID : String
  versionOK : Bool
  subscriptions : List Request

/-- The restore of one snapshot channel: the outcomes of the broker calls and of the presence
registration. -/
structure Restore where
  channel : String
  ephemeral : Bool
  subscribed : Bool
  present : Bool
  unsubscribed : Bool
  adjusted : Bool

/-- What a Connect is answered: by the auth proxy, if there is one (`auth`: user and namespace), by
the directory (`lease`: the owner's user and namespace), by the cluster (`claimed`), by the
transport, and by the registrations. `restores` are the snapshot's channels. -/
structure ConnectReply where
  proxyFound : Bool
  auth : Option (String × String)
  lease : Except Unit (Option (String × String))
  snapshotFound : Bool
  claimed : Bool
  leaseVersion : Nat
  probe : Bool
  prepared : Bool
  added : Bool
  synced : Bool
  restores : List Restore

/-- The namespace of the auth proxy, else the configured one. A connect without either is refused
where authentication is required, as is one without a verified token. -/
def resolveIdentity (cfg : Config) (req : ConnectRequest) (rep : ConnectReply) : Option Identity :=
  let proxied := req.token ≠ "" ∧ rep.proxyFound = true
  if cfg.requireAuth ∧ ¬ proxied then none
  else
    (if proxied then rep.auth else some ("", "")).bind fun who =>
      let ns := if who.2 = "" then cfg.serverNamespace else who.2
      if ns = "" ∧ cfg.requireAuth then none else some ⟨who.1, ns, proxied⟩

def restoreOne (c : SessionRef) (n : Node) (r : Restore) : Node :=
  let ns := (n.sessions c).ns
  if ns ≠ "" ∧ namespaceOf r.channel ≠ .ok ns then n.untrackChannel c r.channel
  else
    match n.restoreLocalSubscription r.channel (newSubscriber c r.ephemeral) r.subscribed with
    | (true, n) => n.untrackChannel c r.channel
    | (false, n) =>
      if !r.present then (n.removeLocalSubscriptionOnly r.channel c r.unsubscribed).2.2
      else (n.adjustClusterChannelSubscriptions r.channel 1 r.adjusted).getD n

def restoreSessionSubscriptions (n : Node) (c : SessionRef) (restores : List Restore) : Node :=
  restores.foldl (restoreOne c) n

def authenticate (s : Session) (who : Identity) (clientID : String) (resumed : Bool) : Session :=
  { s with
    authenticated := true
    user := if who.user ≠ "" then who.user else s.user
    ns := if who.ns ≠ "" then who.ns else s.ns
    client := if resumed then s.client else clientID
    clusterLeaseVersion := if s.clusterLeaseVersion = 0 then 1 else s.clusterLeaseVersion }

def addClient (n : Node) (c : SessionRef) (added synced : Bool) : Option Node :=
  if !added then none
  else (n.setHub (n.hub.add (n.sessionID c) c)).syncClusterSessionState c synced

def finishConnect (cfg : Config) (n : Node) (c : SessionRef) (who : Identity) (req : ConnectRequest)
    (rep : ConnectReply) (resumed resumedLocal : Bool) (restores : List Restore) : Node :=
  let n := n.setSession c (authenticate (n.sessions c) who req.clientID resumed)
  let registered := if resumedLocal then n.syncClusterSessionState c rep.synced
    else addClient n c rep.added rep.synced
  match registered with
  | none =>
    -- A registration whose sync fails is taken back.
    close (if resumedLocal || !rep.added then n else n.setHub (n.hub.removeSession (n.sessionID c))) c
  | some n =>
    match subscribeEach cfg c true (fun _ _ _ => id) (restoreSessionSubscriptions n c restores)
      req.subscriptions [] () with
    | (n, .disconnect, _) => close n c
    | (n, _, _) => n

/-- `takeoverBy`: the connection's transport is handed over, and its own object becomes a shell. -/
def takeoverBy (n : Node) (c existing : SessionRef) (probe : Bool) : Except Node Node :=
  let n := n.setSession existing (n.sessions existing).detach
  match (n.sessions c).attachment with
  | none => .error n
  | some att =>
    match (n.sessions existing).attach (some att) probe with
    | .error _ => .error (close n existing)
    | .ok resumed =>
      .ok ((n.setSession existing resumed).setSession c
        { n.sessions c with delegate := some existing, attachment := none })

def sameOwner (who : Identity) (user ns : String) : Prop :=
  (user = "" ∨ who.user = "" ∨ user = who.user) ∧ (ns = "" ∨ who.ns = "" ∨ ns = who.ns)

instance (who : Identity) (user ns : String) : Decidable (sameOwner who user ns) :=
  inferInstanceAs (Decidable (_ ∧ _))

def reidentify (s : Session) (who : Identity) : Session :=
  { s with
    user := who.user
    ns := if who.ns ≠ "" then who.ns else s.ns
    clusterLeaseVersion := s.clusterLeaseVersion + 1 }

def resumeLocal (cfg : Config) (n : Node) (c existing : SessionRef) (who : Identity)
    (req : ConnectRequest) (rep : ConnectReply) : Node :=
  let s := n.sessions existing
  if ¬ sameOwner who s.user s.ns then close n c
  else if s.user = "" ∧ ¬ rep.prepared then close n c
  else
    match takeoverBy (n.setSession existing (reidentify s who)) c existing rep.probe with
    | .error n => close n c
    | .ok n => finishConnect cfg n existing who req rep true true []

def attachOwn (cfg : Config) (n : Node) (c : SessionRef) (who : Identity) (req : ConnectRequest)
    (rep : ConnectReply) (resumed : Bool) (restores : List Restore) : Node :=
  match (n.sessions c).attach (n.sessions c).attachment rep.probe with
  | .error _ => close n c
  | .ok s => finishConnect cfg (n.setSession c s) c who req rep resumed false restores

def resumeRemote (cfg : Config) (n : Node) (c : SessionRef) (who : Identity)
    (req : ConnectRequest) (rep : ConnectReply) : Node :=
  match rep.lease with
  | .error () => close n c
  | .ok none => attachOwn cfg n c who req rep false []
  | .ok (some (user, ns)) =>
    if ¬ sameOwner who user ns then close n c
    else
      match (if rep.snapshotFound then n.snapshots req.sessionID else none) with
      | none => attachOwn cfg n c who req rep false []
      | some snapshot =>
        if !rep.claimed then close n c
        else
          attachOwn cfg (n.setSession c ((n.sessions c).adoptIdentity req.sessionID
            (if snapshot.ns = "" then (n.sessions c).ns else snapshot.ns) snapshot.userID
            snapshot.clientID (rep.restores.map Restore.channel) rep.leaseVersion)) c who req rep true
            rep.restores

def ConnectReply.restoresSnapshot (rep : ConnectReply) (n : Node) (sessionID : String) : Prop :=
  ∀ snapshot, n.snapshots sessionID = some snapshot →
    (rep.restores.map fun r => (r.channel, r.ephemeral)).toFinset = snapshot.subscriptions

instance (rep : ConnectReply) (n : Node) (sessionID : String) :
    Decidable (rep.restoresSnapshot n sessionID) :=
  match h : n.snapshots sessionID with
  | none => isTrue (by simp [ConnectReply.restoresSnapshot, h])
  | some snapshot => decidable_of_iff
      ((rep.restores.map fun r => (r.channel, r.ephemeral)).toFinset = snapshot.subscriptions)
      (by simp [ConnectReply.restoresSnapshot, h])

def Identity.resumeAllowed (who : Identity) (cfg : Config) : Prop :=
  cfg.requireAuth ∧ who.proxied ∧ who.user ≠ ""

instance (who : Identity) (cfg : Config) : Decidable (who.resumeAllowed cfg) :=
  inferInstanceAs (Decidable (_ ∧ _))

def handleConnect (cfg : Config) (n : Node) (c : SessionRef) (req : ConnectRequest)
    (rep : ConnectReply) (serving : Bool) : Node :=
  let s := n.sessions c
  if s.state = .closed then n
  else if s.authenticated then if serving then close n c else n
  else if !req.versionOK then close n c
  else
    match resolveIdentity cfg req rep with
    | none => close n c
    | some who =>
      if req.sessionID ≠ "" ∧ who.resumeAllowed cfg then
        let n := n.setSession c { s with session := req.sessionID, ns := who.ns }
        match n.hub.lookupSession req.sessionID with
        | some existing => resumeLocal cfg n c existing who req rep
        | none => resumeRemote cfg n c who req rep
      else attachOwn cfg (n.setSession c { s with ns := who.ns }) c who req rep false []

end Connect

section Fence

def fenceSteps : List (Bool × Bool) → Node → Fencing → Option Node
  | [], _, _ => none
  | (ok, adjusted) :: rest, n, f =>
    match Fencing.step n f ok adjusted with
    | (n, .inl f) => fenceSteps rest n f
    | (n, .inr _) => some n

/-- The command of a node that has taken the session over; `channels` is the order in which `Fence`
ranges over the tracked set. -/
def handleClusterTakeoverCommand (n : Node) (c : SessionRef) (channels : List String)
    (outcomes : List (Bool × Bool)) : Option Node :=
  if (n.sessions c).state = .closed then some n
  else if channels.Nodup ∧ channels.toFinset = n.tracked c then
    fenceSteps outcomes (Fencing.start n c channels).1 (Fencing.start n c channels).2
  else none

end Fence

section Delivery

/-- The sessions that a publication on the channel is sent to. Of two session objects with one ID
the source keeps one. -/
def getMatchingSubscribers (h : Hub) (ch : String) : Finset SessionRef :=
  ((h.subs ch).keys.biUnion fun sid => (((h.subs ch).lookup sid).map Subscriber.session).toFinset) ∪
    h.wcSubs.keys.biUnion fun id =>
      (((h.wcSubs.lookup id).filter fun r => matchCriteria r.1 ch).map fun r => r.2.session).toFinset

end Delivery

section ServerAPI

/-- The scope layer and the authorizer let the identity subscribe sessions to the channel; the
session may be any. -/
def mayCommand (cfg : Config) (i : APIIdentity) (channel : String) : Prop :=
  .sessionAct ∈ i.caps ∧ validateChannel channel = .ok () ∧
    (i.isGlobal ∨ i.allowsChannel channel) ∧ apiCanSubscribe cfg.authorizer i channel

instance (cfg : Config) (i : APIIdentity) (channel : String) :
    Decidable (mayCommand cfg i channel) :=
  inferInstanceAs (Decidable (_ ∧ _))

def handleClusterSubscribeCommand (n : Node) (sessionID channel : String) (out : Outcomes) : Node :=
  match n.hub.lookupSession sessionID with
  | none => n
  | some c => (addSubscription n channel (newSubscriber c false) out).1

end ServerAPI

/-- `next` is the first session object that a node has not created yet. -/
structure State where
  nodes : Nat → Node
  next : Nat → SessionRef
  snapshots : String → Option SessionSnapshot

namespace State

def node (s : State) (k : Nat) : Node :=
  { s.nodes k with snapshots := s.snapshots }

def put (s : State) (k : Nat) (n : Node) : State :=
  { s with nodes := Function.update s.nodes k n, snapshots := n.snapshots }

def start (clustered : Nat → Bool) : State where
  nodes := fun k => .new (clustered k) fun c => .newClient "" ⟨c, c, .protobuf⟩
  next := fun _ => 0
  snapshots := fun _ => none

end State

/-- The steps of node `k`. `removal` and `unregister` go on with a `Close`, `sync` is the refresh
that pings trigger. -/
inductive Action where
  | accept (k : Nat) (sessionID : String) (att : Attachment)
  | connect (k : Nat) (c : SessionRef) (req : ConnectRequest) (rep : ConnectReply) (serving : Bool)
  | message (k : Nat) (c : SessionRef) (envelope : Envelope) (serving : Bool)
  | apiSubscribe (k : Nat) (i : APIIdentity) (sessionID channel : String) (out : Outcomes)
  | close (k : Nat) (c : SessionRef)
  | removal (k : Nat) (c : SessionRef) (channel : String) (out : Outcomes)
  | unregister (k : Nat) (c : SessionRef)
  | sync (k : Nat) (c : SessionRef) (ok : Bool)
  | takeover (k : Nat) (sessionID : String) (channels : List String) (outcomes : List (Bool × Bool))

def step (cfg : Config) (s : State) : Action → Option State
  | .accept k sessionID att =>
    some { s.put k ((s.node k).setSession (s.next k) (.newClient sessionID att)) with
      next := Function.update s.next k (s.next k + 1) }
  | .connect k c req rep serving =>
    if c < s.next k ∧ rep.restoresSnapshot (s.node k) req.sessionID then
      some (s.put k (handleConnect cfg (s.node k) (canonical (s.node k) c) req rep serving))
    else none
  | .message k c envelope serving =>
    if c < s.next k then
      some (s.put k (handleMessage cfg (s.node k) (canonical (s.node k) c) envelope serving))
    else none
  | .apiSubscribe k i sessionID channel out =>
    if mayCommand cfg i channel then
      some (s.put k (handleClusterSubscribeCommand (s.node k) sessionID channel out))
    else none
  | .close k c => some (s.put k (close (s.node k) (canonical (s.node k) c)))
  | .removal k c channel out =>
    if ((s.node k).sessions c).state = .closed ∧ channel ∈ (s.node k).tracked c then
      some (s.put k (removeSubscription (s.node k) channel c out).1)
    else none
  | .unregister k c =>
    if ((s.node k).sessions c).state = .closed then
      some (s.put k ((s.node k).setHub
        ((s.node k).hub.removeSessionIfMatches ((s.node k).sessionID c) c).2))
    else none
  | .sync k c ok => some (s.put k (((s.node k).syncClusterSessionState c ok).getD (s.node k)))
  | .takeover k sessionID channels outcomes =>
    match (s.node k).hub.lookupSession sessionID with
    | none => some s
    | some c =>
      (handleClusterTakeoverCommand (s.node k) c channels outcomes).map (s.put k)

abbrev run (cfg : Config) : State → List Action → Option State :=
  Transition.run (step cfg)

end MessageLoop.Namespace
