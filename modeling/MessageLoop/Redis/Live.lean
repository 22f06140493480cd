import MessageLoop.Lib.Transition
import MessageLoop.Topics
import Mathlib.Algebra.Group.Nat.Defs

/-!
The Redis broker's live path (`pkg/redisbroker/redis.go`, `pkg/redisbroker/pubsub.go`).

`Publish` is two Redis operations: the publish script, which numbers the publication and appends
the stream entry, and a later `PUBLISH`. One receiving node consumes its Pub/Sub connection,
drops what `deliverOnce` has already recorded and hands the rest to serial handler workers.
The store is atomic, nothing is trimmed, and the connection is up.
-/

namespace MessageLoop.Redis

open Topics

structure StreamID where
  ms : UInt64
  seq : UInt64
  deriving DecidableEq, Repr

/-- The ID that `XADD *` gives after `last`; an exhausted ID space is an error. -/
def nextID (last : StreamID) (now : UInt64) : Option StreamID :=
  if last.ms < now then some ⟨now, 0⟩
  else if last.seq < .ofNat (2 ^ 64 - 1) then some ⟨last.ms, last.seq + 1⟩
  else if last.ms < .ofNat (2 ^ 64 - 1) then some ⟨last.ms + 1, 0⟩
  else none

def parseStreamOffset (id : StreamID) : UInt64 :=
  id.ms <<< 20 ||| id.seq

variable {β : Type}

structure Entry (β : Type) where
  id : StreamID
  seq : Nat
  data : β
  deriving DecidableEq, Repr

/-- `content` is what the broker carries unread: payload, kind, content type, id, metadata. -/
structure Publication (β : Type) where
  channel : String
  content : β
  offset : UInt64
  seq : UInt64
  deriving DecidableEq, Repr

def deliveryWorkers : Nat := 16

def deliveryQueueSize : Nat := 256

/-- FNV-1a of the channel's bytes, folded onto the worker pool. -/
def deliveryWorkerIndex (channel : String) : Fin deliveryWorkers :=
  let h : UInt32 := channel.toUTF8.data.foldl
    (fun h b => (h ^^^ b.toUInt32) * 16777619) 2166136261
  ⟨h.toNat % deliveryWorkers, Nat.mod_lt _ (by decide)⟩

/-- `scripted` holds the calls that ran the script and still have to `PUBLISH`. `outgoing` is the
publication the consumer loop is sending to a worker queue. `published` records every `PUBLISH`
with the number of extra copies the receiver got through overlapping patterns. -/
structure State (β : Type) where
  counters : String → Nat
  streams : String → List (Entry β)
  scripted : List (Publication β)
  wire : List (Publication β)
  subscribed : String → Nat
  patterns : List String
  lastOffsets : String → Option UInt64
  lastSeqs : String → Option UInt64
  outgoing : Option (Publication β)
  deliverChans : Fin deliveryWorkers → List (Publication β)
  handled : List (Publication β)
  published : List (Publication β × Nat)

def State.start (subscribed : String → Nat) (patterns : List String) : State β where
  counters _ := 0
  streams _ := []
  scripted := []
  wire := []
  subscribed := subscribed
  patterns := patterns
  lastOffsets _ := none
  lastSeqs _ := none
  outgoing := none
  deliverChans _ := []
  handled := []
  published := []

def lastID (entries : List (Entry β)) : StreamID :=
  (entries.getLast?.map Entry.id).getD ⟨0, 0⟩

def entryPublication (ch : String) (e : Entry β) : Publication β :=
  ⟨ch, e.data, parseStreamOffset e.id, .ofNat e.seq⟩

def publishScript (s : State β) (ch : String) (content : β) (now : UInt64) : Option (State β) :=
  (nextID (lastID (s.streams ch)) now).map fun id =>
    let entry : Entry β := ⟨id, s.counters ch + 1, content⟩
    { s with
      counters := Function.update s.counters ch (s.counters ch + 1)
      streams := Function.update s.streams ch (s.streams ch ++ [entry])
      scripted := s.scripted ++ [entryPublication ch entry] }

/-- `PUBLISH` of a numbered publication: one copy for the exact subscription of the receiver and
`extra` copies for patterns of it that match as well. -/
def publish (s : State β) (k extra : Nat) : Option (State β) :=
  s.scripted[k]?.map fun p =>
    { s with
      scripted := s.scripted.eraseIdx k
      wire := s.wire ++ List.replicate (extra + 1) p
      published := s.published ++ [(p, extra)] }

def interested (s : State β) (ch : String) : Bool :=
  0 < s.subscribed ch || s.patterns.any (matchCriteria · ch)

def deliverOnce (s : State β) (p : Publication β) : State β :=
  if p.offset = 0 then { s with outgoing := some p }
  else if (s.lastOffsets p.channel).any (p.offset ≤ ·) then s
  else
    { s with
      lastOffsets := Function.update s.lastOffsets p.channel (some p.offset)
      lastSeqs :=
        if 0 < p.seq then Function.update s.lastSeqs p.channel (some p.seq) else s.lastSeqs
      outgoing := some p }

/-- One message of the Pub/Sub connection; the loop takes none while it still sends the last. -/
def receive (s : State β) : Option (State β) :=
  match s.outgoing, s.wire with
  | none, p :: rest =>
    if interested s p.channel then some (deliverOnce { s with wire := rest } p)
    else some { s with wire := rest }
  | _, _ => none

def dispatch (s : State β) : Option (State β) :=
  s.outgoing.bind fun p =>
    let w := deliveryWorkerIndex p.channel
    if (s.deliverChans w).length < deliveryQueueSize then
      some { s with
        outgoing := none
        deliverChans := Function.update s.deliverChans w (s.deliverChans w ++ [p]) }
    else none

def work (s : State β) (w : Fin deliveryWorkers) : Option (State β) :=
  match s.deliverChans w with
  | [] => none
  | p :: rest => some { s with
      deliverChans := Function.update s.deliverChans w rest
      handled := s.handled ++ [p] }

def subscribe (s : State β) (ch : String) : State β :=
  match compileInterest ch with
  | .error _ => s
  | .ok _ =>
    if isWildcard ch then { s with patterns := s.patterns ++ [ch] }
    else { s with subscribed := Function.update s.subscribed ch (s.subscribed ch + 1) }

def unsubscribe (s : State β) (ch : String) : State β :=
  if isWildcard ch then { s with patterns := s.patterns.erase ch }
  else if s.subscribed ch = 1 then
    { s with
      subscribed := Function.update s.subscribed ch 0
      lastOffsets := Function.update s.lastOffsets ch none
      lastSeqs := Function.update s.lastSeqs ch none }
  else { s with subscribed := Function.update s.subscribed ch (s.subscribed ch - 1) }

/-- A `Publish` call is a `script` label followed, in a successful call, by a `publish` label. -/
inductive Action (β : Type) where
  | script (ch : String) (content : β) (now : UInt64)
  | publish (k extra : Nat)
  | receive
  | dispatch
  | work (w : Fin deliveryWorkers)
  | subscribe (ch : String)
  | unsubscribe (ch : String)

def step (s : State β) : Action β → Option (State β)
  | .script ch content now =>
    if validTopic ch then publishScript s ch content now else some s
  | .publish k extra => publish s k extra
  | .receive => receive s
  | .dispatch => dispatch s
  | .work w => work s w
  | .subscribe ch => some (subscribe s ch)
  | .unsubscribe ch => some (unsubscribe s ch)

abbrev run : State β → List (Action β) → Option (State β) :=
  Transition.run step

def Quiescent (s : State β) : Prop :=
  s.scripted = [] ∧ s.wire = [] ∧ s.outgoing = none ∧ ∀ w, s.deliverChans w = []

instance (s : State β) [DecidableEq β] : Decidable (Quiescent s) :=
  inferInstanceAs (Decidable (_ ∧ _ ∧ _ ∧ _))

def on (ch : String) (ps : List (Publication β)) : List (Publication β) :=
  ps.filter (·.channel = ch)

def accepted (s : State β) (ch : String) : List (Publication β) :=
  (s.streams ch).map (entryPublication ch)

end MessageLoop.Redis
