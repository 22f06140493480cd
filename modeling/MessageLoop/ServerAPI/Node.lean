import MessageLoop.Authz.Identity
import Mathlib.Data.List.Sort
import Mathlib.Data.String.Basic

/-!
What a node does for the Server API: the namespace of a session, the sessions of a user, and
commands to sessions (`internal/runtime/cluster_commands.go`, `cluster_user_index.go`, `node.go`).

What a call does to a session or a channel is an `Effect`. A `Runtime` is the node while it handles
one request: what its lookups find, and the outcome of an effect, depend on the effects that the
request has caused before (a failed send closes the session, and the next lookup goes to the
directory). The two registries of the hub, by session ID and by user, are separate maps in the
source and are separate here; so are the session leases and the user index of the cluster directory.
-/

namespace MessageLoop.ServerAPI

open Authz Topics List

structure Session where
  sessionID : String
  userID : String
  ns : String
  deriving DecidableEq, Repr

structure SessionLease where
  sessionID : String
  nodeID : String
  incarnationID : String
  userID : String
  ns : String
  deriving DecidableEq, Repr

inductive PayloadKind where
  | binary
  | text
  | json
  deriving DecidableEq, Repr

structure BrokerPublication where
  id : String
  metadata : List (String × String)
  contentType : String
  payload : List UInt8
  kind : PayloadKind
  deriving DecidableEq, Repr

/-- The variants of a payload; `json` holds the encoding of the struct, if it has one. -/
inductive PayloadData where
  | unset
  | json (encoded : Option (List UInt8))
  | binary (bytes : List UInt8)
  | text (text : String)
  deriving DecidableEq, Repr

structure Payload where
  contentType : String
  data : PayloadData
  deriving DecidableEq, Repr

structure Message where
  id : String
  payload : Option Payload
  deriving DecidableEq, Repr

inductive Command where
  | publish (message : Message)
  | disconnect (code : UInt32) (reason : String)
  | subscribe (channel : String)
  | unsubscribe (channel : String)
  deriving DecidableEq, Repr

/-- A command is handled by this node or sent to the node of the lease. -/
inductive Route where
  | handled
  | sent
  deriving DecidableEq, Repr

inductive Effect where
  | command (route : Route) (sessionID : String) (lease : SessionLease) (cmd : Command)
  | publish (channel : String) (pub : BrokerPublication) (addHistory : Bool)
  deriving DecidableEq, Repr

structure View where
  hub : String → Option Session
  registeredByUser : String → String → List Session
  getSessionLease : String → Except Unit (Option SessionLease)
  listUserSessions : String → String → List String

structure Runtime where
  clusterEnabled : Bool
  nodeID : String
  incarnationID : String
  authorizer : Authorizer
  view : List Effect → View
  answer : List Effect → Effect → Except Unit Bool

def sortedIDs (ids : List String) : List String :=
  ids.dedup.insertionSort (· ≤ ·)

theorem mem_sortedIDs {ids : List String} {id : String} : id ∈ sortedIDs ids ↔ id ∈ ids := by
  rw [sortedIDs, mem_insertionSort, mem_dedup]

theorem sortedIDs_congr {ids₁ ids₂ : List String} (h : ∀ id, id ∈ ids₁ ↔ id ∈ ids₂) :
    sortedIDs ids₁ = sortedIDs ids₂ := by
  apply List.Perm.eq_of_sortedLE sortedLE_insertionSort sortedLE_insertionSort
  have hperm : ids₁.dedup.Perm ids₂.dedup := by
    apply (perm_ext_iff_of_nodup (nodup_dedup _) (nodup_dedup _)).mpr
    intro id
    rw [mem_dedup, mem_dedup, h id]
  exact (perm_insertionSort _ _).trans (hperm.trans (perm_insertionSort _ _).symm)

def publicationFromPayload (id : String) (metadata : List (String × String)) :
    Option Payload → Except Unit BrokerPublication
  | none => .ok ⟨id, metadata, "", [], .binary⟩
  | some p =>
    match p.data with
    | .unset => .ok ⟨id, metadata, p.contentType, [], .binary⟩
    | .json none => .error ()
    | .json (some encoded) => .ok ⟨id, metadata, p.contentType, encoded, .json⟩
    | .binary bytes => .ok ⟨id, metadata, p.contentType, bytes, .binary⟩
    | .text text => .ok ⟨id, metadata, p.contentType, text.toUTF8.toList, .text⟩

namespace Runtime
variable (n : Runtime) (done : List Effect)

/-- The namespace of a session for visibility; a failed lookup counts as not found. -/
def apiSessionNamespace (sessionID : String) : Option String :=
  if sessionID = "" then none
  else
    match (n.view done).hub sessionID with
    | some s => if s.ns = "" then none else some s.ns
    | none =>
      if !n.clusterEnabled then none
      else
        match (n.view done).getSessionLease sessionID with
        | .ok (some lease) => if lease.ns = "" then none else some lease.ns
        | _ => none

def localUserSessions (ns userID : String) : List String :=
  (((n.view done).registeredByUser ns userID).filter fun s => s.userID = userID ∧ s.ns = ns).map
    (·.sessionID)

/-- The index is a hint: an entry counts if the lease still has the identity. -/
def indexedUserSessions (ns userID : String) : List String :=
  if !n.clusterEnabled then []
  else
    ((n.view done).listUserSessions ns userID).filter fun sessionID =>
      match (n.view done).getSessionLease sessionID with
      | .ok (some lease) => lease.userID = userID ∧ lease.ns = ns
      | _ => false

def expandUserSessions (ns userID : String) : List String :=
  if userID = "" then []
  else sortedIDs (n.localUserSessions done ns userID ++ n.indexedUserSessions done ns userID)

def clusterSessionLease (s : Session) : SessionLease :=
  ⟨s.sessionID, n.nodeID, n.incarnationID, s.userID, s.ns⟩

def resolveSessionLease (sessionID : String) : Except Unit (Option SessionLease) :=
  if sessionID = "" then .ok none
  else
    match (n.view done).hub sessionID with
    | some s =>
      let lease := n.clusterSessionLease s
      .ok (some (if n.clusterEnabled then lease else { lease with nodeID := "", incarnationID := "" }))
    | none => if !n.clusterEnabled then .ok none else (n.view done).getSessionLease sessionID

def route (lease : SessionLease) : Route :=
  if !n.clusterEnabled || (lease.nodeID = n.nodeID && lease.incarnationID = n.incarnationID) then
    .handled
  else .sent

/-- The outcome says whether the command succeeded; without a session there is no result. -/
def dispatchSessionCommand (sessionID : String) (cmd : Command) : Except Unit Bool × List Effect :=
  if sessionID = "" then (.ok false, done)
  else
    match n.resolveSessionLease done sessionID with
    | .error err => (.error err, done)
    | .ok none => (.ok false, done)
    | .ok (some lease) =>
      let effect := Effect.command (n.route lease) sessionID lease cmd
      (n.answer done effect, done ++ [effect])

def publishToSession (sessionID : String) (message : Message) : Except Unit Bool × List Effect :=
  n.dispatchSessionCommand done sessionID (.publish message)

def disconnectSession (sessionID : String) (code : UInt32) (reason : String) :
    Except Unit Bool × List Effect :=
  n.dispatchSessionCommand done sessionID (.disconnect code reason)

def channelCommand (cmd : String → Command) (i : APIIdentity) (sessionID channel : String) :
    Except Unit Bool × List Effect :=
  if !apiCanSubscribe n.authorizer i channel then (.error (), done)
  else n.dispatchSessionCommand done sessionID (cmd channel)

def subscribeSession : APIIdentity → String → String → Except Unit Bool × List Effect :=
  n.channelCommand done .subscribe

def unsubscribeSession : APIIdentity → String → String → Except Unit Bool × List Effect :=
  n.channelCommand done .unsubscribe

def publishForAPI (channel : String) (pub : BrokerPublication) (addHistory : Bool) :
    Except Unit Bool × List Effect :=
  let pol := effectsLocked n.authorizer channel
  if addHistory && (pol.transientOnly || !pol.history) then (.error (), done)
  else
    let effect := Effect.publish channel pub addHistory
    (n.answer done effect, done ++ [effect])

end Runtime

end MessageLoop.ServerAPI
