import MessageLoop.Authz.Authorizer
import MessageLoop.Topics.Namespace
import Mathlib.Data.Finset.Insert

/-!
The identity of a Server API call and its namespace scope (`internal/authz/identity.go`), and what
it may subscribe to and publish on (`internal/runtime/cluster_commands.go`).
-/

namespace MessageLoop.Authz

open Topics

inductive Capability where
  | presenceLargeSnapshot
  | surveyBypassGate
  | historyRead
  | presenceRead
  | channelsList
  | sessionAct
  | userFanout
  | subscribeAny
  | patternGlobal
  deriving DecidableEq, Repr

structure APIIdentity where
  keyID : String
  namespaces : List String
  caps : Finset Capability
  deriving DecidableEq

namespace APIIdentity

/-- Static tokens and insecure access share the fixed principal. -/
def principal (i : APIIdentity) : Principal :=
  ⟨if i.keyID ≠ "static-token" ∧ i.keyID ≠ "insecure" then "key:" ++ i.keyID else "admin"⟩

def allowsNamespace (i : APIIdentity) (ns : String) : Bool :=
  i.namespaces.contains "*" || i.namespaces.contains ns

def allowsChannel (i : APIIdentity) (channel : String) : Bool :=
  match namespaceOf channel with
  | .error _ => false
  | .ok ns => i.allowsNamespace ns

def isGlobal (i : APIIdentity) : Bool :=
  i.namespaces.contains "*"

end APIIdentity

def apiCanSubscribe (a : Authorizer) (i : APIIdentity) (channel : String) : Bool :=
  match compileInterest channel with
  | .error _ => false
  | .ok _ =>
    if .subscribeAny ∈ i.caps then (decideSubscribeSkipAllowLists a channel).allow
    else (decide a i.principal .subscribePattern channel).allow

def apiCanPublish (a : Authorizer) (i : APIIdentity) (channel : String) : Bool :=
  (decide a i.principal .publish channel).allow

end MessageLoop.Authz
