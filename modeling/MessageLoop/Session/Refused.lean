import MessageLoop.Cluster.Directory
import MessageLoop.Runtime.Subscription

/-!
A Connect that is refused, and the teardown of its connection (`handleConnect` in
`internal/session/client.go`, `resumeRemoteSession` in `internal/runtime/cluster_resume.go`,
`Close` in `internal/session/session.go`, `internal/session/takeover.go`).

Answers of the auth proxy, of the directory and of the stores are arguments. An accepted Connect is
followed only up to the point where it is accepted.
-/

namespace MessageLoop.Refused

structure Error where
  code : String
  type : String
  message : String
  deriving DecidableEq, Repr

structure AuthenticateRequest where
  clientID : String
  token : String
  clientType : String
  sessionID : String
  remoteAddr : String
  deriving DecidableEq, Repr

inductive ProxyCall where
  | authenticate (req : AuthenticateRequest)
  | onDisconnected (sessionID username : String)
  deriving DecidableEq, Repr

def ProxyCall.sessionID : ProxyCall → String
  | .authenticate req => req.sessionID
  | .onDisconnected sessionID _ => sessionID

/-- What a node is configured with. `findProxy` routes a channel and a method to a proxy's name. -/
structure Env where
  requireAuth : Bool
  serverNamespace : String
  self : NodeIdentity
  findProxy : String → String → Option String
  shouldTrackPresence : String → Bool → Bool

/-- A node with the leases of the directory, the presence entries of the channels by session ID, and
the calls it has made to proxies. -/
structure World where
  node : Node
  leases : String → Option SessionLease
  presence : String → Finset String
  calls : List ProxyCall

namespace World

def directory (w : World) : Directory :=
  ⟨w.leases, w.node.snapshots⟩

def setDirectory (w : World) (d : Directory) : World :=
  { w with leases := d.leases, node := { w.node with snapshots := d.snapshots } }

def setSession (w : World) (c : SessionRef) (s : Session) : World :=
  { w with node := w.node.setSession c s }

def call (w : World) (p : ProxyCall) : World :=
  { w with calls := w.calls ++ [p] }

end World

section Connect

structure ConnectRequest where
  sessionID : String
  token : String
  clientID : String
  clientType : String
  remoteAddr : String
  versionOK : Bool
  deriving DecidableEq, Repr

/-- `userInfo` holds the user and the namespace. -/
inductive AuthResponse where
  | failed (message : String)
  | rejected (error : Error)
  | accepted (userInfo : Option (String × String))
  deriving DecidableEq, Repr

/-- The reasons to refuse a Connect, all with `DisconnectInvalidToken`. -/
inductive Refusal where
  | tokenMissing
  | tokenUnverifiable
  | proxyFailed (message : String)
  | proxyRejected (error : Error)
  | namespaceUnresolved
  | otherUser
  | otherNamespace
  deriving DecidableEq, Repr

def Refusal.envelope : Refusal → Option Error
  | .tokenMissing | .tokenUnverifiable =>
    some ⟨"AUTH_REQUIRED", "auth_error", "authentication token is required"⟩
  | .proxyFailed message => some ⟨"AUTH_ERROR", "auth_error", message⟩
  | .proxyRejected error => some error
  | .namespaceUnresolved => some ⟨"NAMESPACE_REQUIRED", "auth_error",
      "no namespace resolved: the authentication response carries no namespace and no static " ++
        "server.namespace is configured"⟩
  | .otherUser | .otherNamespace => none

inductive Disconnect where
  | badRequest
  | connectionClosed
  | unsupportedVersion
  deriving DecidableEq, Repr

inductive Accepted where
  | fresh
  | takeover (existing : SessionRef)
  | claim (lease : SessionLease)
  deriving DecidableEq, Repr

/-- `failed` is an answer that the directory owes. -/
inductive Return where
  | refused (r : Refusal)
  | disconnect (d : Disconnect)
  | failed
  | accepted (a : Accepted)
  deriving DecidableEq, Repr

structure Identity where
  user : String
  ns : String
  proxied : Bool
  deriving DecidableEq, Repr

def systemMethodAuthenticate : String :=
  "$authenticate"

def authProxy (env : Env) (req : ConnectRequest) : Option String :=
  if req.token ≠ "" then env.findProxy "" systemMethodAuthenticate else none

/-- The token check. The proxy is shown the ID that the server generated, `original`. -/
def authenticate (env : Env) (w : World) (c : SessionRef) (original : String)
    (req : ConnectRequest) (answer : AuthResponse) : World × Except Return Identity :=
  if req.token = "" ∧ env.requireAuth then (w, .error (.refused .tokenMissing))
  else if authProxy env req = none ∧ env.requireAuth then
    (w, .error (.refused .tokenUnverifiable))
  else if authProxy env req = none then (w, .ok ⟨"", "", false⟩)
  else if (w.node.sessions c).attachment = none then (w, .error (.disconnect .connectionClosed))
  else
    (w.call (.authenticate ⟨req.clientID, req.token, req.clientType, original, req.remoteAddr⟩),
      match answer with
      | .failed message => .error (.refused (.proxyFailed message))
      | .rejected error => .error (.refused (.proxyRejected error))
      | .accepted none => .ok ⟨"", "", true⟩
      | .accepted (some (user, ns)) => .ok ⟨user, ns, true⟩)

def resolveNamespace (env : Env) (who : Identity) : Except Return Identity :=
  let ns := if who.ns = "" then env.serverNamespace else who.ns
  if ns = "" ∧ env.requireAuth then .error (.refused .namespaceUnresolved)
  else .ok { who with ns := ns }

def Identity.resumeAllowed (who : Identity) (env : Env) : Prop :=
  env.requireAuth ∧ who.proxied ∧ who.user ≠ ""

instance (who : Identity) (env : Env) : Decidable (who.resumeAllowed env) :=
  inferInstanceAs (Decidable (_ ∧ _))

def deniedLocally (who : Identity) (existing : Session) : Option Refusal :=
  if existing.user ≠ "" ∧ existing.user ≠ who.user then some .otherUser
  else if existing.ns ≠ "" ∧ who.ns ≠ "" ∧ existing.ns ≠ who.ns then some .otherNamespace
  else none

/-- The same for a session of another node; an empty user is not compared. -/
def deniedRemotely (who : Identity) (lease : SessionLease) : Option Refusal :=
  if who.user ≠ "" ∧ lease.userID ≠ "" ∧ who.user ≠ lease.userID then some .otherUser
  else if who.ns ≠ "" ∧ lease.ns ≠ "" ∧ who.ns ≠ lease.ns then some .otherNamespace
  else none

/-- `resumeRemoteSession` up to the lease claim. -/
def resumeRemoteSession (w : World) (sessionID : String) (who : Identity) (answers : Bool) :
    Return :=
  if !w.node.clusterEnabled ∨ sessionID = "" then .accepted .fresh
  else if !answers then .failed
  else
    match w.leases sessionID with
    | none => .accepted .fresh
    | some lease =>
      match deniedRemotely who lease with
      | some r => .refused r
      | none => .accepted (.claim lease)

def resume (w : World) (sessionID : String) (who : Identity) (answers : Bool) : Return :=
  match w.node.hub.lookupSession sessionID with
  | some existing =>
    match deniedLocally who (w.node.sessions existing) with
    | some r => .refused r
    | none => .accepted (.takeover existing)
  | none => resumeRemoteSession w sessionID who answers

def stagedID (own : String) (req : ConnectRequest) : String :=
  if req.sessionID = "" then own else req.sessionID

/-- The requested ID is taken off the session object again only when the connection may not
resume. -/
def handleConnect (env : Env) (w : World) (c : SessionRef) (req : ConnectRequest)
    (answer : AuthResponse) (answers : Bool) : World × Return :=
  let s := w.node.sessions c
  if s.state = .closed then (w, .disconnect .connectionClosed)
  else if s.authenticated then (w, .disconnect .badRequest)
  else if !req.versionOK then (w, .disconnect .unsupportedVersion)
  else
    let staged := { s with session := stagedID s.session req }
    match authenticate env (w.setSession c staged) c s.session req answer with
    | (w, .error r) => (w, r)
    | (w, .ok who) =>
      match resolveNamespace env who with
      | .error r => (w, r)
      | .ok who =>
        if req.sessionID ≠ "" ∧ who.resumeAllowed env then
          let w := w.setSession c { staged with ns := who.ns }
          (w, resume w req.sessionID who answers)
        else (w.setSession c { s with ns := who.ns }, .accepted .fresh)

end Connect

section Close

/-- What `Close` is answered: for every tracked channel, in the order it ranges over them, whether
the presence store answers and the outcomes of the removal; then the answers to the deletion from
the directory, each with whether the lease just read has expired. -/
structure CloseAnswers where
  channels : List (String × Bool × Outcomes)
  directory : List (Bool × Bool)

def presenceLeave (env : Env) (w : World) (ch sessionID : String) (ephemeral ok : Bool) : World :=
  if env.shouldTrackPresence ch ephemeral ∧ ok then
    { w with presence := Function.update w.presence ch ((w.presence ch).erase sessionID) }
  else w

def leaveChannel (env : Env) (c : SessionRef) (sessionID : String) (w : World)
    (r : String × Bool × Outcomes) : World :=
  presenceLeave env w r.1 sessionID
    (((w.node.lookupSubscriber r.1 c).map Subscriber.ephemeral).getD false) r.2.1

def removeChannel (c : SessionRef) (w : World) (r : String × Bool × Outcomes) : World :=
  { w with node := (removeSubscription w.node r.1 c r.2.2).1 }

def deleteSteps (self : NodeIdentity) (sessionID : String) :
    Directory → DeletePc → List (Bool × Bool) → Directory
  | d, _, [] => d
  | d, pc, (ok, expired) :: rest =>
    match pc.step self sessionID d ok expired with
    | none => d
    | some (d, pc) => deleteSteps self sessionID d pc rest

def deleteClusterSessionState (env : Env) (w : World) (sessionID : String)
    (answers : List (Bool × Bool)) : World :=
  if w.node.clusterEnabled then
    w.setDirectory (deleteSteps env.self sessionID w.directory .get answers)
  else w

def unregister (env : Env) (w : World) (c : SessionRef) (sessionID : String)
    (answers : List (Bool × Bool)) : World :=
  let r := w.node.hub.removeSessionIfMatches sessionID c
  let w := { w with node := w.node.setHub r.2 }
  if r.1 then deleteClusterSessionState env w sessionID answers else w

def disconnectNotice (env : Env) (sessionID userID : String) : List ProxyCall :=
  if (env.findProxy "" "disconnect").isSome then [.onDisconnected sessionID userID] else []

def notifyDisconnected (env : Env) (w : World) (sessionID userID : String) : World :=
  { w with calls := w.calls ++ disconnectNotice env sessionID userID }

/-- `Close` of a session that is not a shell; ID, user and channels are those it starts with. -/
def closeSession (env : Env) (w : World) (c : SessionRef) (answers : CloseAnswers) :
    Option World :=
  let s := w.node.sessions c
  if s.state = .closed then some w
  else if (answers.channels.map Prod.fst).Nodup ∧
      (answers.channels.map Prod.fst).toFinset = s.subscribedChannels then
    let w := w.setSession c s.markClosed
    let w := answers.channels.foldl (leaveChannel env c s.session) w
    let w := answers.channels.foldl (removeChannel c) w
    let w := if s.session ≠ "" then unregister env w c s.session answers.directory else w
    some (notifyDisconnected env w s.session s.user)
  else none

def close (env : Env) (w : World) (c : SessionRef) (answers : CloseAnswers) : Option World :=
  closeSession env w ((w.node.sessions c).delegate.getD c) answers

/-- A shell closes the session it delegates to only while that one is served by its transport. -/
def closeIfServingHandoff (env : Env) (w : World) (e : SessionRef) (handoff : Attachment)
    (answers : CloseAnswers) : Option World :=
  if (w.node.sessions e).attachment.map Attachment.transport = some handoff.transport then
    close env w e answers
  else some w

/-- `closeFromLoop` and `closeFromAttachment`; `att` is the attachment the connection was created
with. -/
def closeFrom (env : Env) (w : World) (c : SessionRef) (att : Attachment)
    (answers : CloseAnswers) : Option World :=
  match (w.node.sessions c).delegate with
  | some e => closeIfServingHandoff env w e att answers
  | none =>
    if (w.node.sessions c).attachment ≠ some att then some w else close env w c answers

/-- After a refusal the read loop closes the session, which ends the loop, and at its end the
connection's close function runs. -/
def teardown (env : Env) (w : World) (c : SessionRef) (att : Attachment)
    (first second : CloseAnswers) : Option World :=
  (closeFrom env w c att first).bind fun w => closeFrom env w c att second

end Close

section Frame
variable {env : Env} {w w' : World} {c : SessionRef} {own : String} {att : Attachment}
variable {req : ConnectRequest} {answer : AuthResponse} {answers : Bool}

/-- The session object of a connection as `NewClient` has made it, with the ID `own`; the hub does
not know it yet. -/
structure NewConnection (w : World) (c : SessionRef) (own : String) (att : Attachment) : Prop where
  object : w.node.sessions c = .newClient own att
  unregistered : ∀ sid, w.node.hub.lookupSession sid ≠ some c

/-- Nothing but the session object of the connection and the calls to proxies differs. -/
structure Unharmed (c : SessionRef) (w w' : World) : Prop where
  hub : w'.node.hub = w.node.hub
  directory : w'.directory = w.directory
  presence : w'.presence = w.presence
  sessions : ∀ x, x ≠ c → w'.node.sessions x = w.node.sessions x

structure Waiting (s : Session) (id : String) (att : Attachment) : Prop where
  session : s.session = id
  user : s.user = ""
  live : s.state ≠ .closed
  channels : s.subscribedChannels = ∅
  attachment : s.attachment = some att
  delegate : s.delegate = none

theorem waiting_newClient (id ns : String) (att : Attachment) :
    Waiting { Session.newClient id att with ns := ns } id att :=
  ⟨rfl, rfl, by simp [Session.newClient], rfl, rfl, rfl⟩

theorem setSession_setSession (w : World) (c : SessionRef) (a b : Session)
    (calls : List ProxyCall) :
    World.setSession { w.setSession c a with calls := calls } c b =
      { w.setSession c b with calls := calls } := by
  simp [World.setSession, Node.setSession]

theorem authenticate_frame {original : String} {r : Except Return Identity}
    (h : authenticate env w c original req answer = (w', r)) :
    ∃ calls, w' = { w with calls := w.calls ++ calls } ∧
      ∀ call ∈ calls, call.sessionID = original := by
  have hnone : ∃ calls, w = { w with calls := w.calls ++ calls } ∧
      ∀ call ∈ calls, call.sessionID = original := ⟨[], by simp, by simp⟩
  unfold authenticate at h
  split_ifs at h
  all_goals obtain ⟨rfl, -⟩ := Prod.mk.inj h
  · exact hnone
  · exact hnone
  · exact hnone
  · exact hnone
  · refine ⟨[_], rfl, fun call hcall => ?_⟩
    rw [List.mem_singleton.mp hcall]
    rfl

theorem handleConnect_refused (hnew : NewConnection w c own att) {r : Refusal}
    (hrefused : (handleConnect env w c req answer answers).2 = .refused r) :
    ∃ s calls, (handleConnect env w c req answer answers).1 =
        { w.setSession c s with calls := w.calls ++ calls } ∧
      Waiting s (stagedID own req) att ∧ ∀ call ∈ calls, call.sessionID = own := by
  have hopen : (w.node.sessions c).state ≠ .closed := by simp [hnew.object, Session.newClient]
  have hanonymous : ¬(w.node.sessions c).authenticated = true := by
    simp [hnew.object, Session.newClient]
  unfold handleConnect at hrefused ⊢
  dsimp only at hrefused ⊢
  rw [if_neg hopen, if_neg hanonymous, hnew.object] at hrefused ⊢
  split_ifs at hrefused ⊢
  split at hrefused
  case h_1 u result hauth =>
    obtain ⟨calls, rfl, hcalls⟩ := authenticate_frame hauth
    exact ⟨_, calls, rfl, waiting_newClient (stagedID own req) "" att, hcalls⟩
  case h_2 u who hauth =>
    obtain ⟨calls, rfl, hcalls⟩ := authenticate_frame hauth
    split at hrefused
    case h_1 e hns =>
      exact ⟨_, calls, rfl, waiting_newClient (stagedID own req) "" att, hcalls⟩
    case h_2 who hns =>
      split_ifs at hrefused ⊢
      exact ⟨_, calls, setSession_setSession .., waiting_newClient (stagedID own req) who.ns att,
        hcalls⟩

theorem closeSession_unregistered {s : Session} {id : String} {closing : CloseAnswers}
    (hobject : w.node.sessions c = s) (hs : Waiting s id att)
    (hunregistered : ∀ sid, w.node.hub.lookupSession sid ≠ some c)
    (hclose : closeSession env w c closing = some w') :
    w' = notifyDisconnected env (w.setSession c s.markClosed) id "" := by
  have hkept : unregister env (w.setSession c s.markClosed) c id closing.directory =
      w.setSession c s.markClosed := by
    have hnone : (w.setSession c s.markClosed).node.hub.removeSessionIfMatches id c =
        (false, w.node.hub) := if_neg (hunregistered id)
    unfold unregister
    rw [hnone]
    rfl
  unfold closeSession at hclose
  dsimp only at hclose
  rw [hobject, if_neg hs.live, hs.channels, hs.session, hs.user] at hclose
  split_ifs at hclose with hchannels hid
  all_goals
    have hnil : closing.channels = [] := by simpa using hchannels.2
    rw [hnil, List.foldl_nil, List.foldl_nil] at hclose
    rw [← Option.some.inj hclose]
  rw [hkept]

theorem teardown_unregistered {s : Session} {id : String} {first second : CloseAnswers}
    (hobject : w.node.sessions c = s) (hs : Waiting s id att)
    (hunregistered : ∀ sid, w.node.hub.lookupSession sid ≠ some c)
    (hdown : teardown env w c att first second = some w') :
    w' = notifyDisconnected env (w.setSession c s.markClosed) id "" := by
  obtain ⟨u, hfirst, hsecond⟩ := Option.bind_eq_some_iff.mp hdown
  have hu : u = notifyDisconnected env (w.setSession c s.markClosed) id "" := by
    unfold closeFrom close at hfirst
    rw [hobject, hs.delegate, hs.attachment] at hfirst
    dsimp only at hfirst
    rw [if_neg (by simp)] at hfirst
    exact closeSession_unregistered hobject hs hunregistered hfirst
  have hclosed : u.node.sessions c = s.markClosed := by
    rw [hu]
    exact Function.update_self ..
  have hdone : closeFrom env u c att second = some u := by
    unfold closeFrom
    rw [hclosed]
    simp [Session.markClosed, hs.delegate]
  rw [← hu]
  exact Option.some.inj (hsecond.symm.trans hdone)

theorem disconnectNotice_own_iff (own id user : String) :
    (∀ call ∈ disconnectNotice env id user, call.sessionID = own) ↔
      id = own ∨ env.findProxy "" "disconnect" = none := by
  unfold disconnectNotice
  cases env.findProxy "" "disconnect" <;> simp [ProxyCall.sessionID]

theorem stagedID_eq_own_iff (own : String) (req : ConnectRequest) :
    stagedID own req = own ↔ req.sessionID = "" ∨ req.sessionID = own := by
  unfold stagedID
  split_ifs with hempty <;> simp [hempty]

/-- A refused Connect changes nothing of any other session, and the proxies hear of no other
session exactly if it requests no other ID or no proxy is notified. -/
theorem refused_connect_iff (hnew : NewConnection w c own att) {r : Refusal}
    (hrefused : (handleConnect env w c req answer answers).2 = .refused r)
    {first second : CloseAnswers}
    (hdown : teardown env (handleConnect env w c req answer answers).1 c att first second =
      some w') :
    Unharmed c w w' ∧ ∃ calls, w'.calls = w.calls ++ calls ∧
      ((∀ call ∈ calls, call.sessionID = own) ↔
        req.sessionID = "" ∨ req.sessionID = own ∨ env.findProxy "" "disconnect" = none) := by
  obtain ⟨s, calls, hhandled, hs, hcalls⟩ := handleConnect_refused hnew hrefused
  rw [hhandled] at hdown
  have hobject : ({ w.setSession c s with calls := w.calls ++ calls } : World).node.sessions c = s :=
    Function.update_self ..
  have hend := teardown_unregistered hobject hs hnew.unregistered hdown
  refine ⟨?_, calls ++ disconnectNotice env (stagedID own req) "", ?_, ?_⟩
  · rw [hend]
    refine ⟨rfl, rfl, rfl, fun x hx => ?_⟩
    simp [notifyDisconnected, World.setSession, hx]
  · rw [hend]
    exact List.append_assoc ..
  · rw [← or_assoc, ← stagedID_eq_own_iff, ← disconnectNotice_own_iff own _ ""]
    simp only [List.mem_append, or_imp, forall_and]
    exact and_iff_right hcalls

def tokenEnv : Env where
  requireAuth := true
  serverNamespace := "tenant"
  self := ⟨"node", "1"⟩
  findProxy _ _ := some "backend"
  shouldTrackPresence _ _ := true

/-- Object 0 serves the session "victim"; object 1 is a new connection with the ID "own". -/
def servingVictim : World where
  node := (Node.new false fun c =>
    if c = 0 then
      { Session.newClient "victim" ⟨0, 0, .protobuf⟩ with
        user := "alice", authenticated := true, state := .attached }
    else .newClient "own" ⟨1, 1, .protobuf⟩).setHub (Hub.empty.add "victim" 0)
  leases _ := none
  presence _ := {"victim"}
  calls := []

theorem newConnection_servingVictim : NewConnection servingVictim 1 "own" ⟨1, 1, .protobuf⟩ := by
  refine ⟨rfl, fun sid hsid => ?_⟩
  by_cases hvictim : sid = "victim"
  · subst hvictim
    simp [servingVictim, Hub.add, Hub.lookupSession] at hsid
  · simp [servingVictim, Hub.add, Hub.lookupSession, Finmap.lookup_insert_of_ne _ hvictim,
      Hub.empty] at hsid

def tokenless (sessionID : String) : ConnectRequest :=
  ⟨sessionID, "", "client", "web", "10.0.0.1", true⟩

theorem refused_connect_anonymous :
    ∃ w', teardown tokenEnv (handleConnect tokenEnv servingVictim 1 (tokenless "")
        (.accepted none) true).1 1 ⟨1, 1, .protobuf⟩ ⟨[], []⟩ ⟨[], []⟩ = some w' ∧
      Unharmed 1 servingVictim w' := by
  have hrefused : (handleConnect tokenEnv servingVictim 1 (tokenless "") (.accepted none) true).2 =
      .refused .tokenMissing := rfl
  obtain ⟨w', hdown⟩ : ∃ w', teardown tokenEnv (handleConnect tokenEnv servingVictim 1
      (tokenless "") (.accepted none) true).1 1 ⟨1, 1, .protobuf⟩ ⟨[], []⟩ ⟨[], []⟩ = some w' :=
    ⟨_, rfl⟩
  exact ⟨w', hdown, (refused_connect_iff newConnection_servingVictim hrefused hdown).1⟩

theorem refused_connect_impersonates :
    servingVictim.node.hub.lookupSession "victim" = some 0 ∧
      (handleConnect tokenEnv servingVictim 1 (tokenless "victim") (.accepted none) true).2 =
        .refused .tokenMissing ∧
      ∃ w', teardown tokenEnv (handleConnect tokenEnv servingVictim 1 (tokenless "victim")
          (.accepted none) true).1 1 ⟨1, 1, .protobuf⟩ ⟨[], []⟩ ⟨[], []⟩ = some w' ∧
        w'.calls = [.onDisconnected "victim" ""] :=
  ⟨by decide, rfl, _, rfl, rfl⟩

end Frame

end MessageLoop.Refused
