import MessageLoop.Lib.Transition
import Mathlib.Data.List.Basic

/-!
The connection of the Go client (`sdks/go/client.go`) under `Connect`, `Close`, the receive loops,
the reconnect loop and the ping loops. A goroutine is its next step: a region under `mu`, an atomic
operation or a channel operation. Transports, pairs of connection channels and calls that wait for a
reply go by their number. User handlers are left out, and so are the pending acks and surveys, whose
channels nothing closes.
-/

namespace MessageLoop.SDK.Lifecycle

open List

structure Options where
  pingInterval : Int
  autoReconnect : Bool
  reconnectMaxAttempts : Nat

/-- The context of a ping loop is done when it is cancelled, and with that of the client. `expired`
is the transport that it is about to close for a late pong. -/
structure PingLoop where
  running : Bool
  cancelled : Bool
  expired : Option Nat
  deriving DecidableEq

inductive Table where
  | rpc
  | presence
  deriving DecidableEq

/-- An `RPC` or `Presence` call: whether it is in its table, whether its wait is over and it has
deleted itself there, and whether its channel has been closed, which its `once` does a single time. -/
structure Call where
  table : Table
  registered : Bool
  returned : Bool
  closed : Bool
  deriving DecidableEq

/-- The deferred function of a call: the deletion under the lock of the table, then `rp.close`. -/
def Call.advance (call : Call) : Call :=
  if call.returned then { call with closed := true }
  else { call with registered := false, returned := true }

/-- `live` is the transport of the current connection from the return of its `handleConnected`
until it fails. `panicked` records a send on, or a close of, a closed channel. -/
structure Client where
  closed : Bool
  connected : Bool
  reconnecting : Bool
  ctxDone : Bool
  generation : Nat
  transport : Nat
  dialed : Nat
  failed : List Nat
  made : Nat
  connectedCh : Option Nat
  connectErrCh : Option Nat
  connectedClosed : List Nat
  errClosed : List Nat
  pingCancel : Option Nat
  loops : List PingLoop
  live : Option Nat
  calls : List Call
  panicked : Bool

open Client

/-- A goroutine by its next step. `attempt` is the number of the reconnect attempt, and `none` in a
`Connect` call; `lost` tells a receive error from an error frame. -/
inductive Proc where
  | dial (attempt : Option Nat)
  | advance (attempt : Option Nat) (conn : Nat)
  | install (attempt : Option Nat) (conn gen : Nat)
  | reset (attempt : Option Nat) (conn gen : Nat)
  | send (attempt : Option Nat) (conn gen : Nat)
  | wait (attempt : Option Nat) (conn : Nat)
  | receive (conn gen : Nat)
  | swap (conn gen : Nat)
  | startPing (conn gen : Nat)
  | handleError (conn gen : Nat) (lost : Bool)
  | sendErr (ch : Option Nat) (conn gen : Nat) (lost : Bool)
  | lost
  | rejectPresence
  | reconnect
  | stopPing
  | attempt (n : Nat)
  | close
  | disconnect
  | closePing
  | cancel
  | closeChannels
  | closePending (table : Table)
  | closeTransport
  | closeReturned
  | request (table : Table)
  | register (table : Table)
  deriving DecidableEq

/-- What the network does: `failed` is an error of the call that the goroutine makes, `reply` a frame
that carries the ID of a pending call. -/
inductive Event where
  | ok
  | failed
  | connected
  | error
  | reply (i : Nat)

def Client.closeTransport (c : Client) (conn : Nat) : Client :=
  { c with
    failed := conn :: c.failed
    live := if c.live = some conn then none else c.live }

def Client.makeChannels (c : Client) : Client :=
  { c with made := c.made + 1, connectedCh := some c.made, connectErrCh := some c.made }

def Client.cancelPing (c : Client) : Client :=
  { c with
    pingCancel := none
    loops := match c.pingCancel with
      | some i => c.loops.modify i fun l => { l with cancelled := true }
      | none => c.loops }

/-- A `close` after a `select` that finds the channel open. -/
def Client.closeConnectedCh (c : Client) : Client :=
  { c with
    connectedClosed :=
      (c.connectedCh.toList.filter (!c.connectedClosed.contains ·)) ++ c.connectedClosed }

def Client.closeErrCh (c : Client) : Client :=
  { c with
    panicked := c.panicked || c.connectErrCh.any c.errClosed.contains
    errClosed := c.connectErrCh.toList ++ c.errClosed
    connectErrCh := none }

/-- The `select` with a default blocks on nothing, but a send on a closed channel panics. -/
def Client.sendErr (c : Client) (ch : Option Nat) : Client :=
  { c with panicked := c.panicked || ch.any c.errClosed.contains }

def Client.startPingLoop (o : Options) (c : Client) : Client :=
  if o.pingInterval ≤ 0 ∨ c.pingCancel.isSome then c
  else { c with
    pingCancel := some c.loops.length
    loops := c.loops ++ [⟨true, false, none⟩] }

/-- `deliverPending` and `deliverPresence`, under the lock of the table. -/
def Client.deliver (c : Client) (i : Nat) : Client :=
  { c with
    panicked := c.panicked || c.calls[i]?.any fun call => call.registered && call.closed
    calls := c.calls.modify i fun call => { call with registered := false } }

def Client.rejectPending (c : Client) (table : Table) : Client :=
  { c with
    panicked := c.panicked ||
      c.calls.any fun call => call.table = table && call.registered && call.closed
    calls := c.calls.map fun call =>
      if call.table = table then { call with registered := false } else call }

def Client.closePending (c : Client) (table : Table) : Client :=
  { c with calls := c.calls.map fun call =>
      if call.table = table ∧ call.registered then { call with registered := false, closed := true }
      else call }

/-- Where a failed attempt goes on: `Connect` returns, the reconnect loop tries again. -/
def again : Option Nat → List Proc
  | none => []
  | some n => [.attempt (n + 1)]

/-- One step of a goroutine: the client and the goroutines that go on. -/
def advance (o : Options) (e : Event) (c : Client) : Proc → Option (Client × List Proc)
  | .dial attempt =>
    if attempt.isNone ∧ c.generation = 0 then some (c, [.advance attempt c.transport])
    else match e with
      | .failed => some (c.closeTransport c.transport, again attempt)
      | _ => some ({ c.closeTransport c.transport with dialed := c.dialed + 1 },
          [.advance attempt c.dialed])
  | .advance attempt conn =>
    some ({ c with generation := c.generation + 1, live := none },
      [.install attempt conn (c.generation + 1)])
  | .install none conn gen =>
    some ({ c.makeChannels with transport := conn }, [.send none conn gen])
  | .install attempt conn gen =>
    some ({ c with transport := conn }, [.reset attempt conn gen])
  | .reset attempt conn gen => some (c.makeChannels, [.send attempt conn gen])
  | .send attempt conn gen =>
    match e with
    | .failed => some (c.closeTransport conn, again attempt)
    | _ => some (c, [.receive conn gen, .wait attempt conn])
  | .wait attempt conn =>
    match e, c.closed with
    | .ok, false => some (c, [])
    | _, _ => some (c.closeTransport conn, again attempt)
  | .receive conn gen =>
    match e with
    | .ok => if c.ctxDone then some (c, []) else none
    | .connected =>
      if c.closed ∨ c.generation ≠ gen then some (c, [.receive conn gen])
      else some ({ c.closeConnectedCh with connected := true }, [.swap conn gen])
    | .error =>
      some (c, [if c.connected then .receive conn gen else .handleError conn gen false])
    | .failed =>
      if conn ∉ c.failed ∧ c.ctxDone = false then none
      else if c.closed ∨ c.transport ≠ conn then some (c, [])
      else some (c, [if c.connected then .lost else .handleError conn gen true])
    | .reply i => some (c.deliver i, [.receive conn gen])
  | .swap conn gen => some ({ c with reconnecting := false }, [.startPing conn gen])
  | .startPing conn gen =>
    some ({ c.startPingLoop o with
      live := if gen = c.generation ∧ conn ∉ c.failed then some conn else c.live },
      [.receive conn gen])
  | .handleError conn gen lost => some (c, [.sendErr c.connectErrCh conn gen lost])
  | .sendErr ch conn gen lost =>
    some (c.sendErr ch, [if lost then .lost else .receive conn gen])
  | .lost => some ({ c with connected := false }, [.rejectPresence])
  | .rejectPresence =>
    some (c.rejectPending .presence,
      if o.autoReconnect ∧ c.closed = false then [.reconnect] else [])
  | .reconnect =>
    if c.reconnecting then some (c, []) else some ({ c with reconnecting := true }, [.stopPing])
  | .stopPing => some (c.cancelPing, [.attempt 1])
  | .attempt n =>
    if c.closed ∨ 0 < o.reconnectMaxAttempts ∧ o.reconnectMaxAttempts < n then
      some ({ c with reconnecting := false }, [])
    else match e, c.ctxDone with
      | .failed, false => none
      | .failed, true => some ({ c with reconnecting := false }, [])
      | _, _ => some (c, [.dial (some n)])
  | .close => some ({ c with closed := true }, [.disconnect])
  | .disconnect => some ({ c with connected := false }, [.closePing])
  | .closePing => some (c.cancelPing, [.cancel])
  | .cancel => some ({ c with ctxDone := true }, [.closeChannels])
  | .closeChannels =>
    some ({ c.closeConnectedCh.closeErrCh with connectedCh := none }, [.closePending .rpc])
  | .closePending .rpc => some (c.closePending .rpc, [.closePending .presence])
  | .closePending .presence => some (c.closePending .presence, [.closeTransport])
  | .closeTransport => some (c.closeTransport c.transport, [.closeReturned])
  | .closeReturned => none
  | .request table => some (c, if c.connected then [.register table] else [])
  | .register table =>
    some ({ c with calls := c.calls ++ [⟨table, true, false, false⟩] }, [])

/-- What a ping loop does: it finds the pong late and takes the transport, and it ends, with its
context done, with that transport closed, or at a tick that finds no connection. -/
inductive Ping where
  | expire
  | done
  | timeout
  | tick

def stopLoop (c : Client) (i : Nat) : Client :=
  { c with loops := c.loops.modify i fun l => { l with running := false } }

def pingStep (c : Client) (i : Nat) (l : PingLoop) : Ping → Option Client
  | .expire =>
    if l.expired = none then
      some { c with loops := c.loops.modify i fun l => { l with expired := some c.transport } }
    else none
  | .done => if l.expired = none ∧ (l.cancelled ∨ c.ctxDone) then some (stopLoop c i) else none
  | .timeout =>
    match l.expired with
    | some conn => some (stopLoop (c.closeTransport conn) i)
    | none => none
  | .tick => if l.expired = none ∧ c.connected = false then some (stopLoop c i) else none

structure State where
  client : Client
  procs : List Proc

/-- `fail` is a transport that the network or the server drops. -/
inductive Action where
  | connect
  | close
  | request (table : Table)
  | call (i : Nat)
  | fail (conn : Nat)
  | ping (i : Nat) (how : Ping)
  | go (k : Nat) (e : Event)

def step (o : Options) (s : State) : Action → Option State
  | .connect => some { s with procs := s.procs ++ [.dial none] }
  | .close => some { s with procs := s.procs ++ [.close] }
  | .request table => some { s with procs := s.procs ++ [.request table] }
  | .call i =>
    some { s with client := { s.client with calls := s.client.calls.modify i Call.advance } }
  | .fail conn => some { s with client := s.client.closeTransport conn }
  | .ping i how => s.client.loops[i]?.bind fun l =>
    if l.running then (pingStep s.client i l how).map fun c => { s with client := c } else none
  | .go k e => s.procs[k]?.bind fun p =>
    (advance o e s.client p).map fun (c, ps) => ⟨c, s.procs.eraseIdx k ++ ps⟩

abbrev run (o : Options) : State → List Action → Option State :=
  Transition.run (step o)

def State.start : State where
  client := ⟨false, false, false, false, 0, 0, 1, [], 1, some 0, some 0, [], [], none, [], none, [], false⟩
  procs := []

variable {o : Options} {s t : State} {a : Action} {e : Event} {c c' : Client} {p q : Proc}
variable {ps : List Proc} {k : Nat}

section Steps

attribute [local grind] closeTransport makeChannels cancelPing
  closeConnectedCh closeErrCh sendErr startPingLoop deliver
  rejectPending closePending again stopLoop

/-- A step of one goroutine, or of the world around them. -/
theorem step_cases (hstep : step o s a = some t) :
    (t.client = s.client ∧ ∃ p, t.procs = s.procs ++ [p] ∧
      (p = .dial none ∨ p = .close ∨ ∃ table, p = .request table)) ∨
    (t.procs = s.procs ∧ ((∃ conn, t.client = s.client.closeTransport conn) ∨
      ∃ i, t.client = { s.client with calls := s.client.calls.modify i Call.advance })) ∨
    (t.procs = s.procs ∧ ∃ i how l, a = .ping i how ∧ s.client.loops[i]? = some l ∧ l.running ∧
      pingStep s.client i l how = some t.client) ∨
    ∃ k e p ps, a = .go k e ∧ s.procs[k]? = some p ∧
      advance o e s.client p = some (t.client, ps) ∧ t.procs = s.procs.eraseIdx k ++ ps := by
  cases a with
  | connect =>
    cases hstep
    exact .inl ⟨rfl, _, rfl, .inl rfl⟩
  | close =>
    cases hstep
    exact .inl ⟨rfl, _, rfl, .inr (.inl rfl)⟩
  | request table =>
    cases hstep
    exact .inl ⟨rfl, _, rfl, .inr (.inr ⟨table, rfl⟩)⟩
  | call i =>
    cases hstep
    exact .inr (.inl ⟨rfl, .inr ⟨i, rfl⟩⟩)
  | fail conn =>
    cases hstep
    exact .inr (.inl ⟨rfl, .inl ⟨conn, rfl⟩⟩)
  | ping i how =>
    obtain ⟨l, hl, hstep⟩ := Option.bind_eq_some_iff.mp hstep
    split_ifs at hstep with hrunning
    obtain ⟨c, hc, rfl⟩ := Option.map_eq_some_iff.mp hstep
    exact .inr (.inr (.inl ⟨rfl, i, how, l, rfl, hl, hrunning, hc⟩))
  | go k e =>
    obtain ⟨p, ⟨c, ps⟩, hp, hadv, rfl⟩ := Option.bind_map_eq_some hstep
    exact .inr (.inr (.inr ⟨k, e, p, ps, rfl, hp, hadv, rfl⟩))

/-- A call in its table has not returned, and its channel is open. -/
def Call.Waits (call : Call) : Prop :=
  call.registered → call.returned = false ∧ call.closed = false

theorem Call.Waits.advance {call : Call} (h : call.Waits) : call.advance.Waits := by
  unfold Call.advance
  split_ifs with hreturned
  · intro hregistered
    cases (h hregistered).1.symm.trans hreturned
  · exact nofun

def Open (c : Client) : Prop :=
  ∀ call ∈ c.calls, call.Waits

theorem Open.modify {f : Call → Call} {i : Nat} (h : Open c) (hf : ∀ call, call.Waits → (f call).Waits)
    (hcalls : c'.calls = c.calls.modify i f) : Open c' := by
  intro call hmem
  rw [hcalls] at hmem
  obtain ⟨j, hj⟩ := mem_iff_getElem?.mp hmem
  rw [getElem?_modify] at hj
  obtain ⟨old, hold, rfl⟩ := Option.map_eq_some_iff.mp hj
  have hwaits := h old (mem_of_getElem? hold)
  split_ifs
  · exact hf old hwaits
  · exact hwaits

/-- The part of the client that the ping loops, the network and most goroutines leave alone. -/
structure SameChannels (c c' : Client) : Prop where
  panicked : c'.panicked = c.panicked
  errClosed : c'.errClosed = c.errClosed
  made : c.made ≤ c'.made
  connectErrCh : ∀ x ∈ c'.connectErrCh, x ∈ c.connectErrCh ∨ x = c.made ∧ c.made < c'.made
  calls : Open c'

theorem Open.same (h : Open c) : SameChannels c c :=
  ⟨rfl, rfl, Nat.le_refl _, fun _ => .inl, h⟩

theorem Open.ping {i : Nat} {l : PingLoop} {how : Ping} (h : Open c)
    (hping : pingStep c i l how = some c') : SameChannels c c' := by
  cases how <;> simp only [pingStep] at hping <;> constructor <;> grind [Open]

theorem Open.deliver (h : Open c) (i : Nat) : SameChannels c (c.deliver i) := by
  refine ⟨?_, rfl, Nat.le_refl _, fun _ => .inl, h.modify (fun _ _ h => by cases h) rfl⟩
  cases hcall : c.calls[i]? with
  | none => simp [Client.deliver, hcall]
  | some call =>
    have hwaits := h call (mem_of_getElem? hcall)
    simp only [Client.deliver, hcall, Option.any_some, Bool.or_eq_left_iff_imp, Bool.and_eq_true]
    rintro ⟨hregistered, hclosed⟩
    cases (hwaits hregistered).2.symm.trans hclosed

theorem Open.rejectPending (h : Open c) (table : Table) :
    SameChannels c (c.rejectPending table) := by
  refine ⟨?_, rfl, Nat.le_refl _, fun _ => .inl, ?_⟩
  · simp only [Client.rejectPending, Bool.or_eq_left_iff_imp, any_eq_true, Bool.and_eq_true]
    rintro ⟨call, hcall, ⟨-, hregistered⟩, hclosed⟩
    cases (h call hcall hregistered).2.symm.trans hclosed
  · refine forall_mem_map.mpr fun call hcall => ?_
    split_ifs
    · exact nofun
    · exact h call hcall

theorem Open.closePending (h : Open c) (table : Table) :
    SameChannels c (c.closePending table) := by
  refine ⟨rfl, rfl, Nat.le_refl _, fun _ => .inl, forall_mem_map.mpr fun call hcall => ?_⟩
  split_ifs
  · exact nofun
  · exact h call hcall

theorem Open.advance (hopen : Open c) (h : advance o e c p = some (c', ps))
    (hclose : p ≠ .closeChannels) (hsend : ∀ ch conn gen lost, p ≠ .sendErr ch conn gen lost) :
    SameChannels c c' := by
  cases p
  case rejectPresence =>
    cases h
    exact hopen.rejectPending .presence
  case closePending table =>
    cases table <;> cases h <;> exact hopen.closePending _
  case register table =>
    cases h
    exact ⟨rfl, rfl, Nat.le_refl _, fun _ => .inl, forall_mem_snoc hopen fun _ => ⟨rfl, rfl⟩⟩
  case receive conn gen =>
    cases e
    case reply i =>
      cases h
      exact hopen.deliver i
    all_goals
      simp only [Lifecycle.advance] at h
      constructor <;> grind [Open]
  all_goals
    simp only [Lifecycle.advance] at h
    constructor <;> grind [Open]

theorem eq_attempt_of_mem_again {attempt : Option Nat} (hp : p ∈ again attempt) :
    ∃ n, p = .attempt n := by
  cases attempt with
  | none => cases hp
  | some n => exact ⟨n + 1, mem_singleton.mp hp⟩

/-- The error channel that a `handleError` has read. -/
def Proc.errCh : Proc → Option Nat
  | .sendErr ch _ _ _ => ch
  | _ => none

theorem errCh_of_advance (h : advance o e c p = some (c', ps)) :
    ∀ q ∈ ps, ∀ x ∈ q.errCh, x ∈ c.connectErrCh := by
  intro q hq x hx
  cases q <;> cases hx
  cases p <;> simp only [advance] at h <;> grind [eq_attempt_of_mem_again]

/-- A closed client does not open again, nor does it connect. -/
theorem sealed_of_advance (h : advance o e c p = some (c', ps)) (hclosed : c.closed) :
    c'.closed ∧ (c.connected = false → c'.connected = false) := by
  cases p <;> simp only [advance] at h <;> grind

theorem sealed_step (hstep : step o s a = some t) (hclosed : s.client.closed) :
    t.client.closed ∧ (s.client.connected = false → t.client.connected = false) := by
  obtain ⟨heq, -⟩ | ⟨-, ⟨conn, heq⟩ | ⟨i, heq⟩⟩ | ⟨-, i, how, l, -, -, -, h⟩ |
    ⟨k, e, p, ps, -, -, h, -⟩ := step_cases hstep
  · rw [heq]
    exact ⟨hclosed, id⟩
  · rw [heq]
    exact ⟨hclosed, id⟩
  · rw [heq]
    exact ⟨hclosed, id⟩
  · cases how <;> simp only [pingStep] at h <;> grind
  · exact sealed_of_advance h hclosed

end Steps

section Closing
variable {as : List Action}

/-- No error handling holds the error channel that a `Close` is about to close. -/
def Apart (s : State) : Action → Prop
  | .go k _ => s.procs[k]? = some .closeChannels →
    ∀ p ∈ s.procs, p.errCh.isSome → p.errCh ≠ s.client.connectErrCh
  | _ => True

instance : DecidablePred (Apart s)
  | .go .. => inferInstanceAs (Decidable (_ → ∀ p ∈ _, _))
  | .connect | .close | .request _ | .call _ | .fail _ | .ping .. => isTrue trivial

def Done (c : Client) : Proc → Prop
  | .disconnect => c.closed
  | .closePing | .cancel | .closeChannels | .closePending _ | .closeTransport | .closeReturned =>
    c.closed ∧ c.connected = false
  | _ => True

structure Safe (s : State) : Prop where
  calm : s.client.panicked = false
  bound : ∀ x ∈ s.client.errClosed, x < s.client.made
  current : ∀ x ∈ s.client.connectErrCh, x < s.client.made ∧ x ∉ s.client.errClosed
  held : ∀ p ∈ s.procs, ∀ x ∈ p.errCh, x ∉ s.client.errClosed
  calls : Open s.client

theorem mem_of_go (hprocs : t.procs = s.procs.eraseIdx k ++ ps) (hq : q ∈ t.procs) :
    q ∈ s.procs ∨ q ∈ ps := by
  rw [hprocs] at hq
  exact (mem_append.mp hq).imp_left mem_of_mem_eraseIdx

theorem Safe.same (h : Safe s) (hsame : SameChannels s.client t.client)
    (hsends : ∀ p ∈ t.procs, p ∈ s.procs ∨ ∀ x ∈ p.errCh, x ∈ s.client.connectErrCh) : Safe t := by
  obtain ⟨hpanicked, hclosed, hmade, hcurrent, hcalls⟩ := hsame
  refine ⟨hpanicked.trans h.calm, ?_, ?_, ?_, hcalls⟩ <;> rw [hclosed]
  · intro x hx
    have := h.bound x hx
    omega
  · intro x hx
    rcases hcurrent x hx with hold | ⟨rfl, hnew⟩
    · obtain ⟨hlt, hopen⟩ := h.current x hold
      exact ⟨by omega, hopen⟩
    · exact ⟨hnew, fun hmem => Nat.lt_irrefl _ (h.bound _ hmem)⟩
  · intro p hp x hx
    rcases hsends p hp with hold | hnew
    · exact h.held p hold x hx
    · exact (h.current x (hnew x hx)).2

theorem not_any_contains {ch : Option Nat} {closed : List Nat} (h : ∀ x ∈ ch, x ∉ closed) :
    ch.any closed.contains = false := by
  cases ch with
  | none => rfl
  | some x => simpa using h x rfl

theorem Safe.go (h : Safe s) (hp : s.procs[k]? = some p) (hapart : Apart s (.go k e))
    (hadv : advance o e s.client p = some (t.client, ps))
    (hprocs : t.procs = s.procs.eraseIdx k ++ ps) : Safe t := by
  have hsends : ∀ q ∈ t.procs, q ∈ s.procs ∨ ∀ x ∈ q.errCh, x ∈ s.client.connectErrCh :=
    fun q hq => (mem_of_go hprocs hq).imp_right (errCh_of_advance hadv q)
  obtain ⟨c, procs⟩ := t
  cases p with
  | closeChannels =>
    cases hadv
    refine ⟨?_, ?_, fun _ hx => (by cases hx), ?_, h.calls⟩
    · show (s.client.panicked || _) = false
      rw [h.calm]
      exact not_any_contains fun x hx => (h.current x hx).2
    · intro x hx
      rcases mem_append.mp hx with hx | hx
      · exact (h.current x (Option.mem_toList.mp hx)).1
      · exact h.bound x hx
    · intro q hq x hx hclosed
      have hold : q ∈ s.procs := by
        refine (mem_of_go hprocs hq).resolve_right fun hnew => ?_
        cases mem_singleton.mp hnew
        cases hx
      rcases mem_append.mp hclosed with hcur | hclosed
      · exact hapart hp q hold (Option.isSome_of_mem hx)
          (hx.trans (Option.mem_toList.mp hcur).symm)
      · exact h.held q hold x hx hclosed
  | sendErr ch conn gen lost =>
    cases hadv
    have hsame : SameChannels s.client (s.client.sendErr ch) := by
      refine ⟨?_, rfl, Nat.le_refl _, fun x hx => .inl hx, h.calls⟩
      show (s.client.panicked || _) = _
      rw [not_any_contains ?_, Bool.or_false]
      exact h.held _ (mem_of_getElem? hp)
    exact h.same hsame hsends
  | _ => exact h.same (h.calls.advance hadv nofun
    nofun) hsends

theorem Safe.step (h : Safe s) (hapart : Apart s a) (hstep : step o s a = some t) : Safe t := by
  obtain ⟨heq, p, hprocs, hp⟩ | ⟨hprocs, hclient⟩ | ⟨hprocs, i, how, l, -, -, -, hping⟩ |
    ⟨k, e, p, ps, rfl, hp, hadv, hprocs⟩ := step_cases hstep
  · refine h.same (heq ▸ h.calls.same) fun q hq => ?_
    rw [hprocs] at hq
    refine (mem_append.mp hq).imp_right fun hq x hx => ?_
    cases mem_singleton.mp hq
    rcases hp with rfl | rfl | ⟨table, rfl⟩ <;> cases hx
  · refine h.same ?_ fun q hq => .inl (hprocs ▸ hq)
    rcases hclient with ⟨conn, heq⟩ | ⟨i, heq⟩ <;> rw [heq]
    · exact ⟨rfl, rfl, Nat.le_refl _, fun _ => .inl, h.calls⟩
    · exact ⟨rfl, rfl, Nat.le_refl _, fun _ => .inl, h.calls.modify (fun _ => .advance) rfl⟩
  · exact h.same (h.calls.ping hping) fun q hq => .inl (hprocs ▸ hq)
  · exact h.go hp hapart hadv hprocs

theorem Done.mono (hp : Done c p)
    (h : c.closed → c'.closed ∧ (c.connected = false → c'.connected = false)) : Done c' p := by
  cases p with
  | disconnect => exact (h hp).1
  | closePing | cancel | closeChannels | closePending _ | closeTransport | closeReturned =>
    exact ⟨(h hp.1).1, (h hp.1).2 hp.2⟩
  | _ => trivial

theorem done_of_advance (hadv : advance o e c p = some (c', ps)) (hp : Done c p) (hq : q ∈ ps) :
    Done c' q := by
  cases p with
  | close =>
    cases hadv
    cases mem_singleton.mp hq
    rfl
  | disconnect =>
    cases hadv
    cases mem_singleton.mp hq
    exact ⟨hp, rfl⟩
  | closePing | cancel | closeChannels | closeTransport =>
    cases hadv
    cases mem_singleton.mp hq
    exact hp
  | closePending table =>
    cases table <;> cases hadv <;> cases mem_singleton.mp hq <;> exact hp
  | _ =>
    simp only [advance] at hadv
    grind [Done, eq_attempt_of_mem_again]

theorem done_step (h : ∀ p ∈ s.procs, Done s.client p) (hstep : step o s a = some t) :
    ∀ p ∈ t.procs, Done t.client p := by
  intro q hq
  have hold : q ∈ s.procs → Done t.client q := fun hmem => (h q hmem).mono (sealed_step hstep)
  obtain ⟨-, p, hprocs, hp⟩ | ⟨hprocs, -⟩ | ⟨hprocs, -⟩ | ⟨k, e, p, ps, -, hp, hadv, hprocs⟩ :=
    step_cases hstep
  · rw [hprocs] at hq
    rcases mem_append.mp hq with hq | hq
    · exact hold hq
    · rcases hp with rfl | rfl | ⟨table, rfl⟩ <;> cases mem_singleton.mp hq <;> trivial
  · exact hold (hprocs ▸ hq)
  · exact hold (hprocs ▸ hq)
  · rcases mem_of_go hprocs hq with hq | hq
    · exact hold hq
    · exact done_of_advance hadv (h p (mem_of_getElem? hp)) hq

theorem done_of_run (hrun : run o .start as = some s) : ∀ p ∈ s.procs, Done s.client p :=
  Transition.invariant (P := fun s => ∀ p ∈ s.procs, Done s.client p)
    (fun _ hp => by cases hp) (fun _ _ _ => done_step) hrun

/-- No goroutine sends on a closed channel or closes one, provided that no error handling holds the
error channel of the connection when a `Close` closes it; and the client is not connected any more
once a `Close` has returned. -/
theorem close_safe (hrun : run o .start as = some s)
    (hapart : Transition.Along (Lifecycle.step o) Apart .start as) :
    s.client.panicked = false ∧
      (.closeReturned ∈ s.procs → ∀ bs t, run o s bs = some t → t.client.connected = false) := by
  refine ⟨?_, fun hreturned bs t hlater => ?_⟩
  · have hsafe : Safe s := Transition.invariant_along
      ⟨rfl, (fun _ hx => by cases hx), (fun x hx => by cases hx; decide),
        (fun _ hp => by cases hp), (fun _ hcall => by cases hcall)⟩
      (fun _ _ _ h hok hstep => h.step hok hstep) hrun hapart
    exact hsafe.calm
  · have hdone : s.client.closed ∧ s.client.connected = false := done_of_run hrun _ hreturned
    exact (Transition.invariant (P := fun t => t.client.closed ∧ t.client.connected = false) hdone
      (fun _ _ _ h hstep => ⟨(sealed_step hstep h.1).1, (sealed_step hstep h.1).2 h.2⟩) hlater).2

def connecting (k : Nat) : List Action :=
  .connect :: replicate 4 (.go k .ok)

def established (k : Nat) : List Action :=
  connecting k ++ [.go k .connected, .go (k + 1) .ok, .go (k + 1) .ok, .go k .ok]

/-- An RPC and a presence query wait on a connection that drops. The next attempt to connect is
refused, and its error handling holds the channel it has read while a third attempt is made and
`Close` closes the channels and the tables. Then it sends, and the RPC returns. -/
def refusedThenClosed : List Action :=
  established 0 ++ [.request .rpc, .go 1 .ok, .go 1 .ok, .request .presence, .go 1 .ok, .go 1 .ok,
    .fail 0, .go 0 .failed, .go 0 .ok, .go 0 .ok] ++ connecting 0 ++ [.go 0 .error, .go 1 .ok] ++
  connecting 2 ++ .close :: replicate 8 (.go 4 .ok) ++ [.go 1 .ok, .call 0, .call 0]

theorem close_safe_refused : ∃ s, run ⟨1, false, 0⟩ .start refusedThenClosed = some s ∧
    s.client.panicked = false ∧ s.client.connected = false := by
  have hrun : run ⟨1, false, 0⟩ .start refusedThenClosed = some _ := rfl
  obtain ⟨hcalm, hquiet⟩ := close_safe hrun (by decide +kernel)
  exact ⟨_, hrun, hcalm, hquiet (by decide) [] _ rfl⟩

/-- An error frame answers the Connect; its handler has read the error channel when `Close` closes
it, and then sends. -/
theorem close_panics : (run ⟨1, true, 0⟩ .start (connecting 0 ++ [.go 0 .error, .go 1 .ok, .close] ++
    replicate 5 (.go 2 .ok) ++ [.go 1 .ok])).map (·.client.panicked) = some true := by
  decide +kernel

end Closing

end MessageLoop.SDK.Lifecycle
