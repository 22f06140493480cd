import MessageLoop.ServerAPI.Scope

/-!
The handlers `Publish`, `Disconnect`, `Subscribe` and `Unsubscribe` of the Server API
(`internal/serverapi/api_handler.go`).
-/

namespace MessageLoop.ServerAPI

open Authz Topics

/-- The result maps of the other calls are `results`; a publish has no result fields. -/
inductive Response where
  | error (status : Status)
  | published
  | results (results : String → Option Bool)

/-- Every call starts with its scope wrapper; after an error of the wrapper nothing is done. -/
def afterScope {α : Type} (scope : Handler (Except Status α)) (body : α → Handler Response) :
    Handler Response := do
  match ← scope with
  | .error status => pure (.error status)
  | .ok out => body out

def expandUsers (ns : String) : List String → Handler (List String)
  | [] => pure []
  | userID :: users => do
    let expanded : List String ← Program.perform (Op.expandUserSessions ns userID)
    let rest ← expandUsers ns users
    pure (expanded ++ rest)

def unionSessions (explicit users : List String) (ns : String) : Handler (List String) := do
  let expanded ← expandUsers ns users
  pure (sortedIDs (explicit.filter (· ≠ "") ++ expanded))

section Publish

def checkUsers (id ns : String) : List String → Option Status
  | [] => none
  | userID :: users =>
    if userID = "" then
      some ⟨.invalidArgument,
        "destination.users must not contain an empty user_id (publication %q)", [.text id]⟩
    else if ns = "" then
      some ⟨.invalidArgument,
        "destination.namespace is required when destination.users is set (publication %q)",
        [.text id]⟩
    else checkUsers id ns users

def checkPublication (pub : Publication) : Option Status :=
  match pub.destination with
  | none => none
  | some dest => checkUsers pub.id dest.ns dest.users

structure Tally where
  attempted : Nat
  failed : Nat
  deriving DecidableEq, Repr

def Tally.fail (t : Tally) : Tally :=
  ⟨t.attempted + 1, t.failed + 1⟩

def Tally.record (t : Tally) : Except Unit Bool → Tally
  | .error _ => t.fail
  | .ok _ => ⟨t.attempted + 1, t.failed⟩

def publishToOne (message : Message) (t : Tally) (sessionID : String) : Handler Tally := do
  let result : Except Unit Bool ← Program.perform (Op.publishToSession sessionID message)
  pure (t.record result)

def publishToChannel (pub : BrokerPublication) (addHistory : Bool) (t : Tally) (channel : String) :
    Handler Tally := do
  let allowed : Bool ← Program.perform (Op.apiCanPublish channel)
  if !allowed then pure t.fail
  else
    let result : Except Unit Bool ← Program.perform (Op.publishForAPI channel pub addHistory)
    pure (t.record result)

def publishOne (t : Tally) (pub : Publication) : Handler Tally :=
  match publicationFromPayload pub.id pub.metadata pub.payload with
  | .error _ => pure t.fail
  | .ok brokerPub =>
    match pub.destination with
    | none => pure t.fail
    | some dest =>
      if dest.sessions = [] ∧ dest.channels = [] ∧ dest.users = [] then pure t.fail
      else do
        let sessions ← unionSessions dest.sessions dest.users dest.ns
        let t ← sessions.foldlM (publishToOne ⟨pub.id, pub.payload⟩) t
        dest.channels.foldlM (publishToChannel brokerPub (pub.options.getD false)) t

def Tally.response (t : Tally) : Response :=
  if t.attempted > 0 ∧ t.failed = t.attempted then
    .error ⟨.internal, "all %d delivery attempt(s) failed", [.count t.failed]⟩
  else .published

def publishScoped (req : PublishRequest) (scope : PublishScopeResult) : Handler Response :=
  match req.publications.findSome? checkPublication with
  | some status => pure (.error status)
  | none => do
    -- erased sessions count like sessions that are not found, removed channels like failures
    let t ← req.publications.foldlM publishOne
      ⟨scope.erasedSessions + scope.removedChannels, scope.removedChannels⟩
    pure t.response

def publish (i : APIIdentity) (req : PublishRequest) : Handler Response :=
  afterScope (scopePublish i req) fun out => publishScoped out.1 out.2

end Publish

section Disconnect

def succeeded : Except Unit Bool → Bool
  | .error _ => false
  | .ok ok => ok

def disconnectOne (code : UInt32) (reason : String) (results : String → Option Bool)
    (sessionID : String) : Handler (String → Option Bool) := do
  let result : Except Unit Bool ← Program.perform (Op.disconnectSession sessionID code reason)
  pure (Function.update results sessionID (some (succeeded result)))

def disconnectScoped (req : DisconnectRequest) : Handler Response :=
  if "" ∈ req.users then
    pure (.error ⟨.invalidArgument, "users must not contain an empty user_id", []⟩)
  else if req.users ≠ [] ∧ req.ns = "" then
    pure (.error ⟨.invalidArgument, "namespace is required when users is set", []⟩)
  else do
    let sessions ← unionSessions req.sessions req.users req.ns
    let results ← sessions.foldlM (disconnectOne req.code req.reason) fun _ => none
    pure (.results results)

def disconnect (i : APIIdentity) (req : DisconnectRequest) : Handler Response :=
  afterScope (scopeDisconnect i req) disconnectScoped

end Disconnect

section Subscribe

/-- One session that succeeds decides the channel, and the others are not tried. -/
def trySessions (call : String → Handler (Except Unit Bool)) : List String → Handler Bool
  | [] => pure false
  | sessionID :: sessions => do
    let result ← call sessionID
    if succeeded result then pure true else trySessions call sessions

def subscribeChannel (call : String → String → Handler (Except Unit Bool)) (sessions : List String)
    (results : String → Option Bool) (channel : String) : Handler (String → Option Bool) := do
  let ok ← trySessions (call · channel) sessions
  pure (Function.update results channel (some ok))

def allFalse (channels : List String) (results : String → Option Bool) : String → Option Bool :=
  channels.foldl (fun results channel => Function.update results channel (some false)) results

/-- The common body of `Subscribe` and `Unsubscribe`. -/
def subscriptionScoped (call : String → String → Handler (Except Unit Bool))
    (req : SubscribeRequest) (scope : SubscribeScopeResult) : Handler Response :=
  let erased := allFalse scope.erasedChannels fun _ => none
  if scope.shortCircuit then pure (.results (allFalse req.channels erased))
  else if req.sessionID = "" ∧ req.userID = "" then
    pure (.error ⟨.invalidArgument, "session_id and user_id must not both be empty", []⟩)
  else if req.userID ≠ "" ∧ req.ns = "" then
    pure (.error ⟨.invalidArgument, "namespace is required when user_id is set", []⟩)
  else do
    let sessions ← unionSessions [req.sessionID] [req.userID] req.ns
    let results ← req.channels.foldlM (subscribeChannel call sessions) erased
    pure (.results results)

def subscribe (i : APIIdentity) (req : SubscribeRequest) : Handler Response :=
  afterScope (scopeSubscribe i req) fun out =>
    subscriptionScoped (fun sessionID channel =>
      Program.perform (Op.subscribeSession sessionID channel)) out.1 out.2

def unsubscribe (i : APIIdentity) (req : SubscribeRequest) : Handler Response :=
  afterScope (scopeUnsubscribe i req) fun out =>
    subscriptionScoped (fun sessionID channel =>
      Program.perform (Op.unsubscribeSession sessionID channel)) out.1 out.2

end Subscribe

inductive Request where
  | publish (req : PublishRequest)
  | disconnect (req : DisconnectRequest)
  | subscribe (req : SubscribeRequest)
  | unsubscribe (req : SubscribeRequest)
  deriving DecidableEq, Repr

def handler (i : APIIdentity) : Request → Handler Response
  | .publish req => publish i req
  | .disconnect req => disconnect i req
  | .subscribe req => subscribe i req
  | .unsubscribe req => unsubscribe i req

/-- The response of a node and the effects of the request, in order. -/
def handle (n : Runtime) (i : APIIdentity) (req : Request) : Response × List Effect :=
  (handler i req).run (perform n i) []

end MessageLoop.ServerAPI
