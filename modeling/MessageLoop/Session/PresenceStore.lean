import MessageLoop.Runtime.SubscriptionCalls
import MessageLoop.Session.PresenceEvents

/-!
The presence entries of one session while operations on it overlap (`refreshPresence`,
`handleSubscribe` and `handleUnsubscribe` in `internal/session/client.go`, `Close` in
`internal/session/session.go`, `presenceJoin` and `presenceLeave` in `internal/runtime/node.go`, the
Server API's commands in `internal/runtime/cluster_commands.go`).

An operation is followed on one channel, from the reads it starts with to its write to the presence
store; a request, a `Close` or a refresh of several channels is one operation for each. Every read
of the tracked set or of the hub, every step of a subscription call and every write to the store is
a step of its own. Stores and broker answer every call.
-/

namespace MessageLoop.PresenceStore

open PresenceEvents

/-- Who subscribes: the client, with the flag of its request, or a command of the Server API, which
never asks for an ephemeral subscription. -/
inductive Origin where
  | client (ephemeral : Bool)
  | command
  deriving DecidableEq, Repr

def Origin.ephemeral : Origin → Bool
  | .client ephemeral => ephemeral
  | .command => false

inductive Kind where
  | subscribe (origin : Origin)
  | unsubscribe (command : Bool)
  | close
  | refresh
  deriving DecidableEq, Repr

def Kind.removes : Kind → Bool
  | .unsubscribe _ | .close => true
  | .subscribe _ | .refresh => false

/-- Where an operation stands. `store` is about to add the session to the channel or to remove it;
`added` is a subscription whose request goes on with other channels, and `undo` its removal when the
request fails. -/
inductive Stage where
  | ready
  | look
  | call (a : SubCall)
  | gate
  | store (add : Bool)
  | added
  | undo (a : SubCall)
  | done
  deriving DecidableEq, Repr

/-- `already` and `ephemeral` are what the operation has read about the subscription. -/
structure Operation where
  kind : Kind
  channel : String
  already : Bool
  ephemeral : Bool
  stage : Stage
  deriving DecidableEq, Repr

namespace Operation

def start (kind : Kind) (ch : String) : Operation :=
  ⟨kind, ch, false, false, .ready⟩

def goto (op : Operation) (stage : Stage) : Operation :=
  { op with stage := stage }

def call (op : Operation) : Option SubCall :=
  match op.stage with
  | .call a => some a
  | .undo a => some a
  | _ => none

def holds (op : Operation) : Bool :=
  op.call.any SubCall.holds

def acquires (op : Operation) : Bool :=
  op.call.any SubCall.acquires

/-- A refresh has begun with its copy of the tracked set, any other operation with its first
step. -/
def underway (op : Operation) : Prop :=
  op.stage ≠ .done ∧ (op.stage = .ready → op.kind = .refresh)

instance (op : Operation) : Decidable op.underway :=
  inferInstanceAs (Decidable (_ ∧ _))

def joined (op : Operation) : Stage :=
  match op.kind with
  | .subscribe (.client _) => .added
  | _ => .done

/-- After `AddSubscription` or `RemoveSubscription`. Only the commands look at the error of a
removal. -/
def afterCall (e : Env) (op : Operation) (ok : Bool) : Stage :=
  match op.kind with
  | .subscribe (.client ephemeral) =>
    if ok && !op.already then
      if shouldTrackPresence e op.channel ephemeral then .gate else .added
    else .done
  | .subscribe .command => if ok && !op.already then .gate else .done
  | .unsubscribe command =>
    if (ok || !command) && op.already && shouldTrackPresence e op.channel op.ephemeral then
      .store false
    else .done
  | .close | .refresh => .done

/-- One step, with its effect on the node and on the channels in which the store has the session.
`fail` tells whether the request of an added subscription fails; as all calls are answered, it does
so only because the session has been closed. -/
def advance (e : Env) (n : Node) (present : Finset String) (op : Operation) (fail : Bool) :
    Option (Node × Finset String × Operation) :=
  let c := e.session
  let ch := op.channel
  match op.stage with
  | .ready =>
    match op.kind with
    | .subscribe (.client ephemeral) =>
      some (n, present, { op with
        already := ch ∈ n.tracked c
        stage := .call (SubCall.add c ch ephemeral) })
    | .subscribe .command =>
      some (n, present, { op with
        already := (n.lookupSubscriber ch c).isSome
        stage := .call (SubCall.add c ch false) })
    | .unsubscribe false =>
      some (n, present, { op with already := ch ∈ n.tracked c, stage := .look })
    | .unsubscribe true =>
      some (n, present, { op with
        already := (n.lookupSubscriber ch c).isSome
        ephemeral := storedEphemeral e n ch
        stage := .call (SubCall.remove c ch) })
    | .close =>
      some (n, present, op.goto (if shouldTrackPresence e ch (storedEphemeral e n ch) then
        .store false else .call (SubCall.remove c ch)))
    | .refresh =>
      some (n, present, op.goto (if shouldTrackPresence e ch (storedEphemeral e n ch) then
        .store true else .done))
  | .look =>
    some (n, present, { op with
      ephemeral := storedEphemeral e n ch
      stage := .call (SubCall.remove c ch) })
  | .call a =>
    match a.pc with
    | .returned r => some (n, present, op.goto (op.afterCall e (r = .ok)))
    | _ => (a.step n true).map fun r => (r.1, present, op.goto (.call r.2))
  | .gate =>
    some (n, present, op.goto (if shouldTrackPresence e ch (storedEphemeral e n ch) then
      .store true else op.joined))
  | .store true => some (n, insert ch present, op.goto op.joined)
  | .store false =>
    some (n, present.erase ch,
      op.goto (if op.kind = .close then .call (SubCall.remove c ch) else .done))
  | .added =>
    some (n, present, op.goto (if fail = true ∧ (n.sessions c).state = .closed then
      .undo (SubCall.remove c ch) else .done))
  | .undo a =>
    match a.pc with
    | .returned _ =>
      match op.kind with
      | .subscribe origin =>
        some (n, present, op.goto (if shouldTrackPresence e ch origin.ephemeral then .store false
          else .done))
      | _ => none
    | _ => (a.step n true).map fun r => (r.1, present, op.goto (.undo r.2))
  | .done => none

end Operation

/-- `present` holds the channels in which the presence store has the session. -/
structure State where
  node : Node
  present : Finset String
  ops : List Operation

def State.closed (s : State) (e : Env) : Prop :=
  (s.node.sessions e.session).state = .closed

instance (s : State) (e : Env) : Decidable (s.closed e) :=
  inferInstanceAs (Decidable (_ = _))

def State.blocked (s : State) (op : Operation) : Prop :=
  op.acquires = true ∧ ∃ other ∈ s.ops, other.channel = op.channel ∧ other.holds = true

instance (s : State) (op : Operation) : Decidable (s.blocked op) :=
  inferInstanceAs (Decidable (_ ∧ _))

/-- `refresh` and `close` range over the tracked set in the order of `channels`; `others` is what
happens on the node besides. -/
inductive Action where
  | subscribe (origin : Origin) (ch : String)
  | unsubscribe (command : Bool) (ch : String)
  | refresh (channels : List String)
  | close (channels : List String)
  | advance (k : Nat) (fail : Bool)
  | others (node : Node)

def State.spawn (s : State) (kind : Kind) (channels : List String) : State :=
  { s with ops := s.ops ++ channels.map (Operation.start kind) }

def step (e : Env) (s : State) : Action → Option State
  | .subscribe origin ch => some (s.spawn (.subscribe origin) [ch])
  | .unsubscribe command ch => some (s.spawn (.unsubscribe command) [ch])
  | .refresh channels =>
    if channels.Nodup ∧ channels.toFinset = s.node.tracked e.session then
      some (s.spawn .refresh channels)
    else none
  | .close channels =>
    if s.closed e then some s
    else if channels.Nodup ∧ channels.toFinset = s.node.tracked e.session then
      some (State.spawn { s with
        node := s.node.setSession e.session (s.node.sessions e.session).markClosed }
        .close channels)
    else none
  | .advance k fail =>
    s.ops[k]?.bind fun op =>
      if s.blocked op then none
      else (op.advance e s.node s.present fail).map fun r => ⟨r.1, r.2.1, s.ops.set k r.2.2⟩
  | .others node => some { s with node := node }

/-- The store has the session in the tracked channels that it is open for and subscribed to, not
counting ephemeral subscriptions. -/
def Agrees (e : Env) (s : State) : Prop :=
  ∀ ch, shouldTrackPresence e ch false = true →
    (ch ∈ s.present ↔ ¬ s.closed e ∧
      ∃ r, s.node.lookupSubscriber ch e.session = some r ∧ r.ephemeral = false)

structure Settled (e : Env) (s : State) : Prop where
  opened : ¬ s.closed e
  idle : s.ops = []
  tracked : ∀ ch, ch ∈ s.node.tracked e.session ↔ (s.node.lookupSubscriber ch e.session).isSome
  agrees : Agrees e s

/-- What happens besides leaves the session, its tracked set and its records alone. -/
def Others (e : Env) (s : State) : Action → Prop
  | .others node => node.view e.session = s.node.view e.session
  | _ => True

/-- The operation may begin beside those that are underway on its channel. -/
def Begins (s : State) (op : Operation) : Prop :=
  ∀ other ∈ s.ops, other.channel = op.channel → other.underway →
    op.kind.removes = false ∧ other.kind.removes = false

instance (s : State) (op : Operation) : Decidable (Begins s op) :=
  inferInstanceAs (Decidable (∀ other ∈ s.ops, _))

/-- An unsubscription, and the `Close` of a channel, overlap no other operation on the channel. -/
def Apart (s : State) : Action → Prop
  | .refresh channels => ∀ ch ∈ channels, Begins s (Operation.start .refresh ch)
  | .advance k _ => ∀ op ∈ s.ops[k]?, ¬ op.underway → Begins s op
  | .subscribe _ _ => True
  | .unsubscribe _ _ => True
  | .close _ => True
  | .others _ => True

instance decidableApart (s : State) : (a : Action) → Decidable (Apart s a)
  | .refresh channels =>
    inferInstanceAs (Decidable (∀ ch ∈ channels, Begins s (Operation.start .refresh ch)))
  | .advance k _ => inferInstanceAs (Decidable (∀ op ∈ s.ops[k]?, ¬ op.underway → Begins s op))
  | .subscribe .. | .unsubscribe .. | .close _ | .others _ => isTrue trivial

end MessageLoop.PresenceStore
