import MessageLoop.Lib.Transition
import MessageLoop.Session.Hub

/-!
Fan-out of publications on one exact channel (`Hub.BroadcastPublications`), interleaved with the
sessions' own steps.

The hub is seen through the channel: its exact subscriber records and the sessions a matching
wildcard covers. Broadcasts follow each other in offset order, as the broker delivers them. Each
session that may hold a subscription has completed its first `Attach`.
-/

namespace MessageLoop.Broadcast

/-- How far `sendOne` got for one subscriber. A frame in `queued` awaits the writer's result. -/
inductive Stage where
  | unsent
  | reading (queue : Nat)
  | queued
  | delivered
  | failed
  deriving DecidableEq, Repr

structure Send where
  encoding : Marshaler
  stage : Stage
  deriving DecidableEq, Repr

/-- A running call: `frames` is the size of the frame in each encoding, if it marshals. -/
structure Call where
  offsets : List Nat
  frames : Marshaler → Option Nat
  clients : List String
  sends : String → Send

/-- `held` are the records that a `RemoveSubscription` in progress re-adds when it rolls back.
The last three fields record the history of the current subscription of each session: the offsets
broadcast since it was added, those the session's queue took, and whether a send was refused. -/
structure State where
  sessions : String → Session
  maxMessageSize : Nat
  subs : Subscribers
  wildcards : Finset String
  held : Subscribers
  current : Option Call
  lastOffset : Nat
  since : String → List Nat
  accepted : String → List Nat
  missed : Finset String

def State.start (sessions : String → Session) (maxMessageSize : Nat) : State where
  sessions := sessions
  maxMessageSize := maxMessageSize
  subs := ∅
  wildcards := ∅
  held := ∅
  current := none
  lastOffset := 0
  since _ := []
  accepted _ := []
  missed := ∅

def mergeMatchingSubscribers (s : State) : Finset String :=
  s.subs.keys ∪ s.wildcards

def maxOffset (offsets : List Nat) : Nat :=
  offsets.foldl max 0

def Call.setStage (c : Call) (sid : String) (stage : Stage) : Call :=
  { c with sends := Function.update c.sends sid { c.sends sid with stage := stage } }

def State.setSession (s : State) (sid : String) (sess : Session) : State :=
  { s with sessions := Function.update s.sessions sid sess }

def begin (s : State) (offsets : List Nat) (frames : Marshaler → Option Nat)
    (order : List String) : Option State :=
  if s.current = none ∧ offsets ≠ [] ∧ (s.lastOffset :: offsets).Pairwise (· < ·) ∧
      order.Nodup ∧ order.toFinset = mergeMatchingSubscribers s then
    some { s with
      current := if order = [] then none else some
        ⟨offsets, frames, order, fun sid => ⟨(s.sessions sid).currentMarshaler, .unsent⟩⟩
      lastOffset := maxOffset offsets
      since := fun sid => if sid ∈ s.subs then s.since sid ++ offsets else s.since sid }
  else none

def fail (s : State) (c : Call) (sid : String) : State :=
  { s with
    current := some (c.setStage sid .failed)
    missed := if c.offsets.any (· ∈ s.since sid) then insert sid s.missed else s.missed }

/-- `sendFrame` up to the point where `enqueueBytes` has read the session. A changed encoding
makes it marshal again; outside `Attached` the frame is written directly, if a transport is left. -/
def sendFrame (s : State) (c : Call) (sid : String) (write : Bool) : State :=
  let sess := s.sessions sid
  match c.frames (c.sends sid).encoding with
  | none => fail s c sid
  | some size =>
    if 0 < s.maxMessageSize ∧ s.maxMessageSize < size then fail s c sid
    else if sess.currentMarshaler ≠ (c.sends sid).encoding then
      { s with current := some { c with
          sends := Function.update c.sends sid ⟨sess.currentMarshaler, .unsent⟩ } }
    else if sess.state = .attached then
      { s with current := some (c.setStage sid (.reading sess.outID)) }
    else if sess.attachment = none ∨ write = false then fail s c sid
    else { s with current := some (c.setStage sid .delivered) }

/-- `tryEnqueue` on the queue the send has read; a full lane closes the session. -/
def enqueue (s : State) (c : Call) (sid : String) (queue : Nat) : State :=
  let sess := s.sessions sid
  let frame : QueuedFrame := ⟨(c.frames (c.sends sid).encoding).getD 0, false, c.offsets⟩
  if sess.outID ≠ queue then fail s c sid
  else match sess.out.tryEnqueue frame with
    | .ok q =>
      { s.setSession sid { sess with out := q } with
        current := some (c.setStage sid .queued)
        accepted := Function.update s.accepted sid (s.accepted sid ++ c.offsets) }
    | .error .sendQueueFull => fail (s.setSession sid sess.markClosed) c sid
    | .error _ => fail s c sid

def bump (offset : Nat) (subs : Subscribers) (sid : String) : Subscribers :=
  match subs.lookup sid with
  | none => subs
  | some sub =>
    if sub.deliveredOffset < offset then subs.insert sid { sub with deliveredOffset := offset }
    else subs

def recordDeliveredOffsets (subs : Subscribers) (offset : Nat) (clients : List String)
    (delivered : String → Bool) : Subscribers :=
  clients.foldl (fun subs sid => if delivered sid then bump offset subs sid else subs) subs

def Call.delivered (c : Call) (sid : String) : Bool :=
  (c.sends sid).stage = .delivered

def record (s : State) (c : Call) : Option State :=
  if ∀ sid ∈ c.clients, (c.sends sid).stage = .delivered ∨ (c.sends sid).stage = .failed then
    some { s with
      subs := recordDeliveredOffsets s.subs (maxOffset c.offsets) c.clients c.delivered
      current := none }
  else none

def forget (s : State) (sid : String) : State :=
  { s with since := Function.update s.since sid [], missed := s.missed.erase sid }

inductive Action where
  | begin (offsets : List Nat) (frames : Marshaler → Option Nat) (order : List String)
  | send (sid : String) (write : Bool)
  | enqueue (sid : String)
  | confirm (sid : String) (ok : Bool)
  | record
  | addSub (sid : String) (session : SessionRef) (ephemeral : Bool)
  | removeSub (sid : String)
  | rollbackRemove (sid : String)
  | addWildcard (sid : String)
  | removeWildcard (sid : String)
  | attach (sid : String) (att : Option Attachment) (probe : Bool)
  | detach (sid : String)
  | close (sid : String)
  | write (sid : String)
  | otherFrame (sid : String) (frame : QueuedFrame)

def step (s : State) : Action → Option State
  | .begin offsets frames order => begin s offsets frames order
  | .send sid write => s.current.bind fun c =>
    if sid ∈ c.clients ∧ (c.sends sid).stage = .unsent then some (sendFrame s c sid write) else none
  | .enqueue sid => s.current.bind fun c =>
    match (c.sends sid).stage with
    | .reading queue => if sid ∈ c.clients then some (enqueue s c sid queue) else none
    | _ => none
  | .confirm sid ok => s.current.bind fun c =>
    if sid ∈ c.clients ∧ (c.sends sid).stage = .queued then
      some { s with current := some (c.setStage sid (if ok then .delivered else .failed)) }
    else none
  | .record => s.current.bind (record s)
  | .addSub sid session ephemeral =>
    if sid ∈ s.subs then some s
    else some { forget s sid with subs := s.subs.insert sid (newSubscriber session ephemeral) }
  | .removeSub sid => (s.subs.lookup sid).map fun sub =>
    { s with subs := s.subs.erase sid, held := s.held.insert sid sub }
  | .rollbackRemove sid => (s.held.lookup sid).map fun sub =>
    { forget s sid with subs := s.subs.insert sid sub, held := s.held.erase sid }
  | .addWildcard sid => some { s with wildcards := insert sid s.wildcards }
  | .removeWildcard sid => some { s with wildcards := s.wildcards.erase sid }
  | .attach sid att probe =>
    match (s.sessions sid).attach att probe with
    | .ok sess => some (s.setSession sid sess)
    | .error _ => some s
  | .detach sid => some (s.setSession sid (s.sessions sid).detach)
  | .close sid => some (s.setSession sid (s.sessions sid).markClosed)
  | .write sid => (s.sessions sid).out.dequeue.map fun fq =>
    s.setSession sid { s.sessions sid with out := fq.2 }
  | .otherFrame sid frame =>
    match (s.sessions sid).out.tryEnqueue frame with
    | .ok q => some (s.setSession sid { s.sessions sid with out := q })
    | .error .sendQueueFull => some (s.setSession sid (s.sessions sid).markClosed)
    | .error _ => some s

abbrev run : State → List Action → Option State :=
  Transition.run step

def Sound (s : State) : Prop :=
  ∀ sid sub, s.subs.lookup sid = some sub →
    ∀ o ∈ s.since sid, o ≤ sub.deliveredOffset → o ∈ s.accepted sid

end MessageLoop.Broadcast
