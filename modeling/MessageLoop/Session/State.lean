import Mathlib.Data.Finset.Insert
import Mathlib.Data.Finset.Erase

/-!
The session object and its critical sections (`internal/session/session.go`,
`internal/session/runtime.go`). Each function is one section under the session lock; object
identities (sessions, attachments, transports, queues) are numbers. Offsets and lease versions,
which are only compared and counted up, are natural numbers.
-/

namespace MessageLoop

abbrev SessionRef := Nat

inductive SessionState where
  | authenticating
  | attached
  | detached
  | closed
  deriving DecidableEq, Repr

inductive Marshaler where
  | protoJSON
  | protobuf
  deriving DecidableEq, Repr

structure Attachment where
  id : Nat
  transport : Nat
  marshaler : Marshaler
  deriving DecidableEq, Repr

/-- A marshaled outbound frame. `offsets` are the publications a broadcast frame carries. -/
structure QueuedFrame where
  size : Nat
  control : Bool
  offsets : List Nat
  deriving DecidableEq, Repr

structure SendQueue where
  closed : Bool
  control : List QueuedFrame
  data : List QueuedFrame
  deriving DecidableEq, Repr

def sendQueueControlDepth : Nat := 32

def sendQueueDataDepth : Nat := 256

inductive SendError where
  | outboundTooLarge
  | marshalFailed
  | sendQueueFull
  | sessionNotAttached
  | writeFailed
  deriving DecidableEq, Repr

namespace SendQueue

def new : SendQueue := ⟨false, [], []⟩

def tryEnqueue (q : SendQueue) (frame : QueuedFrame) : Except SendError SendQueue :=
  if q.closed then .error .sessionNotAttached
  else if frame.control then
    if sendQueueControlDepth ≤ q.control.length then .error .sendQueueFull
    else .ok { q with control := q.control ++ [frame] }
  else if sendQueueDataDepth ≤ q.data.length then .error .sendQueueFull
  else .ok { q with data := q.data ++ [frame] }

def dequeue (q : SendQueue) : Option (QueuedFrame × SendQueue) :=
  if q.closed then none
  else match q.control, q.data with
    | frame :: rest, _ => some (frame, { q with control := rest })
    | [], frame :: rest => some (frame, { q with data := rest })
    | [], [] => none

def close (_ : SendQueue) : SendQueue := ⟨true, [], []⟩

end SendQueue

/-- `outID` is the identity of the current queue: a send keeps using the queue it read. -/
structure Session where
  session : String
  user : String
  ns : String
  client : String
  authenticated : Bool
  state : SessionState
  attachment : Option Attachment
  out : SendQueue
  outID : Nat
  delegate : Option SessionRef
  subscribedChannels : Finset String
  clusterLeaseVersion : Nat
  deriving DecidableEq

inductive AttachError where
  | nilAttachment
  | probeFailed
  | sessionClosed
  | alreadyAttached
  deriving DecidableEq, Repr

namespace Session

def newClient (sessionID : String) (att : Attachment) : Session where
  session := sessionID
  user := ""
  ns := ""
  client := ""
  authenticated := false
  state := .authenticating
  attachment := some att
  out := .new
  outID := 0
  delegate := none
  subscribedChannels := ∅
  clusterLeaseVersion := 0

/-- The locked part of `Attach`, after the nil check and the transport probe. -/
def attachLocked (s : Session) (att : Attachment) : Except AttachError Session :=
  match s.state with
  | .closed => .error .sessionClosed
  | .attached => .error .alreadyAttached
  | .detached => .ok { s with
      state := .attached, attachment := some att, out := .new, outID := s.outID + 1 }
  | .authenticating => .ok { s with state := .attached, attachment := some att }

def attach (s : Session) (att : Option Attachment) (probe : Bool) : Except AttachError Session :=
  match att with
  | none => .error .nilAttachment
  | some att => if probe then s.attachLocked att else .error .probeFailed

def detach (s : Session) : Session :=
  if s.state = .attached then
    { s with state := .detached, out := s.out.close, attachment := none }
  else s

/-- The locked part with which `Close` and `Fence` start, on a session that is not closed. -/
def markClosed (s : Session) : Session :=
  { s with state := .closed, out := s.out.close, attachment := none }

def trackChannel (s : Session) (ch : String) : Bool × Session :=
  if s.state = .closed then (true, s)
  else (false, { s with subscribedChannels := insert ch s.subscribedChannels })

def forceTrackChannel (s : Session) (ch : String) : Session :=
  { s with subscribedChannels := insert ch s.subscribedChannels }

def untrackChannel (s : Session) (ch : String) : Session :=
  { s with subscribedChannels := s.subscribedChannels.erase ch }

def adoptIdentity (s : Session) (sessionID ns user client : String) (subscriptions : List String)
    (leaseVersion : Nat) : Session :=
  { s with
    session := sessionID
    user := if user ≠ "" then user else s.user
    ns := if ns ≠ "" then ns else s.ns
    client := if client ≠ "" then client else s.client
    subscribedChannels := subscriptions.toFinset
    clusterLeaseVersion :=
      if 0 < leaseVersion then leaseVersion
      else if s.clusterLeaseVersion = 0 then 1 else s.clusterLeaseVersion }

def leaseVersion (s : Session) : Nat :=
  if s.clusterLeaseVersion = 0 then 1 else s.clusterLeaseVersion

/-- The locked part with which a failed `Fence` ends: the session serves its attachment again. -/
def reopen (s : Session) (att : Option Attachment) : Session :=
  if s.state = .closed ∧ att ≠ none then
    { s with state := .attached, attachment := att, out := .new, outID := s.outID + 1 }
  else s

def currentMarshaler (s : Session) : Marshaler :=
  (s.attachment.map Attachment.marshaler).getD .protoJSON

@[simp] theorem session_reopen {s : Session} {att : Option Attachment} :
    (s.reopen att).session = s.session := by
  unfold reopen
  split_ifs <;> rfl

@[simp] theorem subscribedChannels_reopen {s : Session} {att : Option Attachment} :
    (s.reopen att).subscribedChannels = s.subscribedChannels := by
  unfold reopen
  split_ifs <;> rfl

@[simp] theorem leaseVersion_reopen {s : Session} {att : Option Attachment} :
    (s.reopen att).leaseVersion = s.leaseVersion := by
  unfold reopen
  split_ifs <;> rfl

theorem detach_of_ne {s : Session} (h : s.state ≠ .attached) : s.detach = s :=
  if_neg h

theorem attach_of_detached {s : Session} (att : Attachment) (h : s.state = .detached) :
    s.attach (some att) true = .ok { s with
      state := .attached, attachment := some att, out := .new, outID := s.outID + 1 } := by
  simp [attach, attachLocked, h]

theorem attach_of_attached {s : Session} (att : Attachment) (h : s.state = .attached) :
    s.attach (some att) true = .error .alreadyAttached := by
  simp [attach, attachLocked, h]

theorem attach_of_closed {s : Session} (att : Attachment) (h : s.state = .closed) :
    s.attach (some att) true = .error .sessionClosed := by
  simp [attach, attachLocked, h]

end Session

end MessageLoop
