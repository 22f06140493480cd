import MessageLoop.Lib.Program
import MessageLoop.ServerAPI.Node
import Mathlib.Data.Finset.Lattice.Basic

/-!
The scope layer of the Server API (`internal/serverapi/scope.go`): the capabilities a request
needs, the grammar of its channels, and the removal of targets outside the caller's namespaces.

Handlers are programs over the calls they make to the node (`runtime.ServerAPIRuntime`); of these
the scope layer makes only the test whether a session is visible.
-/

namespace MessageLoop.ServerAPI

open Authz Topics

inductive Code where
  | permissionDenied
  | invalidArgument
  | internal
  deriving DecidableEq, Repr

inductive Arg where
  | text (text : String)
  | count (count : Nat)
  | cause (err : NamespaceError)
  deriving DecidableEq, Repr

/-- The error of a call, with the format of its message and the arguments of the format. -/
structure Status where
  code : Code
  format : String
  args : List Arg
  deriving DecidableEq, Repr

structure Destination where
  sessions : List String
  channels : List String
  users : List String
  ns : String
  deriving DecidableEq, Repr

/-- `options` holds `add_history` if options are given. -/
structure Publication where
  id : String
  metadata : List (String × String)
  payload : Option Payload
  options : Option Bool
  destination : Option Destination
  deriving DecidableEq, Repr

structure PublishRequest where
  publications : List Publication
  deriving DecidableEq, Repr

structure DisconnectRequest where
  sessions : List String
  users : List String
  ns : String
  code : UInt32
  reason : String
  deriving DecidableEq, Repr

/-- The requests `Subscribe` and `Unsubscribe` have the same fields. -/
structure SubscribeRequest where
  sessionID : String
  userID : String
  ns : String
  channels : List String
  deriving DecidableEq, Repr

section Capabilities

def targetCaps (sessions users : Bool) : Finset Capability :=
  (if sessions then {.sessionAct} else ∅) ∪ (if users then {.userFanout, .sessionAct} else ∅)

def PublishRequest.requiredCaps (req : PublishRequest) : Finset Capability :=
  req.publications.foldl (fun caps pub =>
    match pub.destination with
    | none => caps
    | some dest => caps ∪ targetCaps (dest.sessions ≠ []) (dest.users ≠ [])) ∅

def DisconnectRequest.requiredCaps (req : DisconnectRequest) : Finset Capability :=
  targetCaps (req.sessions ≠ []) (req.users ≠ [])

def SubscribeRequest.requiredCaps (req : SubscribeRequest) : Finset Capability :=
  targetCaps (req.sessionID ≠ "") (req.userID ≠ "")

def scopeAuthorize (i : APIIdentity) (method : String) (required : Finset Capability) :
    Except Status Unit :=
  if required ⊆ i.caps then .ok ()
  else .error ⟨.permissionDenied, "%s requires server API capability", [.text method]⟩

end Capabilities

def sessionVisibleTo (n : Runtime) (i : APIIdentity) (done : List Effect) (sessionID : String) :
    Bool :=
  if i.isGlobal then true
  else
    match n.apiSessionNamespace done sessionID with
    | none => false
    | some ns => i.allowsNamespace ns

section Calls

inductive Op where
  | sessionVisibleTo (sessionID : String)
  | expandUserSessions (ns userID : String)
  | publishToSession (sessionID : String) (message : Message)
  | disconnectSession (sessionID : String) (code : UInt32) (reason : String)
  | subscribeSession (sessionID channel : String)
  | unsubscribeSession (sessionID channel : String)
  | apiCanPublish (channel : String)
  | publishForAPI (channel : String) (pub : BrokerPublication) (addHistory : Bool)

abbrev Op.Answer : Op → Type
  | .sessionVisibleTo _ => Bool
  | .expandUserSessions _ _ => List String
  | .apiCanPublish _ => Bool
  | _ => Except Unit Bool

abbrev Handler (α : Type) := Program Op.Answer α

/-- What the node does for a call that a caller's request makes. -/
def perform (n : Runtime) (i : APIIdentity) : (op : Op) → List Effect → op.Answer × List Effect
  | .sessionVisibleTo sessionID, done => (sessionVisibleTo n i done sessionID, done)
  | .expandUserSessions ns userID, done => (n.expandUserSessions done ns userID, done)
  | .publishToSession sessionID message, done => n.publishToSession done sessionID message
  | .disconnectSession sessionID code reason, done => n.disconnectSession done sessionID code reason
  | .subscribeSession sessionID channel, done => n.subscribeSession done i sessionID channel
  | .unsubscribeSession sessionID channel, done => n.unsubscribeSession done i sessionID channel
  | .apiCanPublish channel, done => (apiCanPublish n.authorizer i channel, done)
  | .publishForAPI channel pub addHistory, done => n.publishForAPI done channel pub addHistory

end Calls

/-- The channels that stay and those outside the scope; an invalid channel ends the traversal. -/
def scopeChannels (i : APIIdentity) : List String → Except Status (List String × List String)
  | [] => .ok ([], [])
  | channel :: channels =>
    match validateChannel channel with
    | .error err => .error ⟨.invalidArgument, "invalid channel %q: %v", [.text channel, .cause err]⟩
    | .ok () =>
      match scopeChannels i channels with
      | .error status => .error status
      | .ok (kept, erased) =>
        if !i.isGlobal && !i.allowsChannel channel then .ok (kept, channel :: erased)
        else .ok (channel :: kept, erased)

def visibleSessions : List String → Handler (List String)
  | [] => pure []
  | sessionID :: sessions => do
    let visible : Bool ← Program.perform (Op.sessionVisibleTo sessionID)
    let kept ← visibleSessions sessions
    pure (if visible then sessionID :: kept else kept)

structure PublishScopeResult where
  erasedSessions : Nat
  removedChannels : Nat
  deriving DecidableEq, Repr

def scopeDestination (i : APIIdentity) (dest : Destination) :
    Handler (Except Status (Destination × PublishScopeResult)) :=
  if dest.users ≠ [] ∧ dest.ns ≠ "" ∧ !i.allowsNamespace dest.ns then
    pure (.error
      ⟨.permissionDenied, "destination.namespace is outside the caller's namespace scope", []⟩)
  else
    match scopeChannels i dest.channels with
    | .error status => pure (.error status)
    | .ok (kept, removed) => do
      let sessions ← if i.isGlobal then pure dest.sessions else visibleSessions dest.sessions
      pure (.ok ({ dest with channels := kept, sessions := sessions },
        ⟨dest.sessions.length - sessions.length, removed.length⟩))

def scopePublication (i : APIIdentity) (pub : Publication) :
    Handler (Except Status (Publication × PublishScopeResult)) :=
  match pub.destination with
  | none => pure (.ok (pub, ⟨0, 0⟩))
  | some dest => do
    match ← scopeDestination i dest with
    | .error status => pure (.error status)
    | .ok (dest, out) => pure (.ok ({ pub with destination := some dest }, out))

def scopePublications (i : APIIdentity) :
    List Publication → Handler (Except Status (List Publication × PublishScopeResult))
  | [] => pure (.ok ([], ⟨0, 0⟩))
  | pub :: pubs => do
    match ← scopePublication i pub with
    | .error status => pure (.error status)
    | .ok (pub, first) =>
      match ← scopePublications i pubs with
      | .error status => pure (.error status)
      | .ok (kept, out) =>
        pure (.ok (pub :: kept,
          ⟨first.erasedSessions + out.erasedSessions, first.removedChannels + out.removedChannels⟩))

def scopePublish (i : APIIdentity) (req : PublishRequest) :
    Handler (Except Status (PublishRequest × PublishScopeResult)) :=
  match scopeAuthorize i "Publish" req.requiredCaps with
  | .error status => pure (.error status)
  | .ok () => do
    match ← scopePublications i req.publications with
    | .error status => pure (.error status)
    | .ok (kept, out) => pure (.ok (⟨kept⟩, out))

def scopeDisconnect (i : APIIdentity) (req : DisconnectRequest) :
    Handler (Except Status DisconnectRequest) :=
  match scopeAuthorize i "Disconnect" req.requiredCaps with
  | .error status => pure (.error status)
  | .ok () =>
    if req.users ≠ [] ∧ req.ns ≠ "" ∧ !i.allowsNamespace req.ns then
      pure (.error ⟨.permissionDenied, "namespace is outside the caller's namespace scope", []⟩)
    else if i.isGlobal then pure (.ok req)
    else do
      let kept ← visibleSessions req.sessions
      pure (.ok { req with sessions := kept })

/-- `shortCircuit`: the only target was a session that is not visible. -/
structure SubscribeScopeResult where
  erasedChannels : List String
  shortCircuit : Bool
  deriving DecidableEq, Repr

def scopeSubscribeTargets (i : APIIdentity) (req : SubscribeRequest) :
    Handler (Except Status (SubscribeRequest × SubscribeScopeResult)) :=
  if req.userID ≠ "" ∧ req.ns ≠ "" ∧ !i.allowsNamespace req.ns then
    pure (.error ⟨.permissionDenied, "namespace is outside the caller's namespace scope", []⟩)
  else
    match scopeChannels i req.channels with
    | .error status => pure (.error status)
    | .ok (kept, erased) =>
      if i.isGlobal || req.sessionID = "" then
        pure (.ok ({ req with channels := kept }, ⟨erased, false⟩))
      else do
        let visible : Bool ← Program.perform (Op.sessionVisibleTo req.sessionID)
        if visible then pure (.ok ({ req with channels := kept }, ⟨erased, false⟩))
        else pure (.ok ({ req with channels := kept, sessionID := "" }, ⟨erased, req.userID = ""⟩))

def scopeSubscription (method : String) (i : APIIdentity) (req : SubscribeRequest) :
    Handler (Except Status (SubscribeRequest × SubscribeScopeResult)) :=
  match scopeAuthorize i method req.requiredCaps with
  | .error status => pure (.error status)
  | .ok () => scopeSubscribeTargets i req

def scopeSubscribe : APIIdentity → SubscribeRequest →
    Handler (Except Status (SubscribeRequest × SubscribeScopeResult)) :=
  scopeSubscription "Subscribe"

def scopeUnsubscribe : APIIdentity → SubscribeRequest →
    Handler (Except Status (SubscribeRequest × SubscribeScopeResult)) :=
  scopeSubscription "Unsubscribe"

end MessageLoop.ServerAPI
