import MessageLoop.Lib.Transition

/-!
The broadcast batcher (`internal/runtime/broadcast_batcher.go`) before `Close`.

Any number of `Deliver` calls run concurrently with the flusher goroutine of every accumulator.
Each label is one critical section, or one operation on a signal channel or on the hub. Timers
fire at any moment.
-/

namespace MessageLoop.Batcher

variable {β : Type}

structure Settings where
  minSubscribers : Nat
  maxMessages : Nat
  maxBatchBytes : Nat
  deriving DecidableEq, Repr

structure Publication (β : Type) where
  offset : Nat
  size : Nat
  content : β
  deriving DecidableEq, Repr

inductive Flusher (β : Type) where
  | select
  | threshold
  | timer
  | flush
  | broadcasting (batch : List (Publication β))
  | returning
  | rearm
  | reaping
  | removing
  | stopped
  deriving DecidableEq, Repr

structure Accumulator (β : Type) where
  ch : String
  buf : List (Publication β)
  bytes : Nat
  inFlight : Nat
  closed : Bool
  notify : Bool
  flushNow : Bool
  flusher : Flusher β
  deriving DecidableEq, Repr

/-- Where a `Deliver` call stands; accumulators are object identities. -/
inductive Progress where
  | immediate
  | draining (acc : Nat)
  | waiting (acc : Nat)
  | appending (acc : Nat)
  | notifying (acc : Nat)
  deriving DecidableEq, Repr

structure Call (β : Type) where
  ch : String
  pub : Publication β
  progress : Progress
  deriving DecidableEq, Repr

/-- `passed` and `handed` record what `Deliver` was given and what the two fan-out functions
received. Accumulators have the identities below `created`. -/
structure State (β : Type) where
  settings : Settings
  accs : String → Option Nat
  created : Nat
  pool : Nat → Accumulator β
  calls : List (Call β)
  passed : List (String × Publication β)
  handed : List (String × Publication β)

def newChannelAccumulator (ch : String) : Accumulator β :=
  ⟨ch, [], 0, 0, false, false, false, .select⟩

def State.start (settings : Settings) : State β where
  settings := settings
  accs _ := none
  created := 0
  pool _ := newChannelAccumulator ""
  calls := []
  passed := []
  handed := []

def State.setAcc (s : State β) (i : Nat) (a : Accumulator β) : State β :=
  { s with pool := Function.update s.pool i a }

def State.setCall (s : State β) (k : Nat) (c : Call β) (progress : Progress) : State β :=
  { s with calls := s.calls.set k { c with progress := progress } }

def State.dropCall (s : State β) (k : Nat) : State β :=
  { s with calls := s.calls.eraseIdx k }

def State.addCall (s : State β) (ch : String) (pub : Publication β) (progress : Progress) :
    State β :=
  { s with
    calls := s.calls ++ [⟨ch, pub, progress⟩]
    passed := s.passed ++ [(ch, pub)] }

/-- `Deliver` up to its first critical section: the direct path, the oversize path, which drains
an existing accumulator first, or the accumulator of the channel, created on first use. -/
def deliver (s : State β) (ch : String) (pub : Publication β) (enabled : Bool) (subCount : Nat) :
    State β :=
  if pub.offset = 0 ∨ enabled = false ∨ subCount < s.settings.minSubscribers then
    s.addCall ch pub .immediate
  else if s.settings.maxBatchBytes < pub.size then
    match s.accs ch with
    | none => s.addCall ch pub .immediate
    | some i => s.addCall ch pub (.draining i)
  else match s.accs ch with
    | some i => s.addCall ch pub (.appending i)
    | none =>
      { (s.setAcc s.created (newChannelAccumulator ch)).addCall ch pub (.appending s.created) with
        accs := Function.update s.accs ch (some s.created)
        created := s.created + 1 }

def thresholdReached (settings : Settings) (a : Accumulator β) : Bool :=
  settings.maxMessages ≤ a.buf.length || settings.maxBatchBytes ≤ a.bytes

def full (settings : Settings) (a : Accumulator β) (size : Nat) : Bool :=
  settings.maxMessages ≤ a.buf.length || settings.maxBatchBytes < a.bytes + size

def Accumulator.push (a : Accumulator β) (pub : Publication β) : Accumulator β :=
  { a with buf := a.buf ++ [pub], bytes := a.bytes + pub.size }

/-- The locked part of `append`: blocked while the buffer is full, diverted when it is closed. -/
def append (s : State β) (k : Nat) (c : Call β) (i : Nat) : Option (State β) :=
  let a := s.pool i
  if a.closed then some (s.setCall k c .immediate)
  else if full s.settings a c.pub.size then none
  else
    let s' := s.setAcc i (a.push c.pub)
    if a.buf = [] ∨ thresholdReached s.settings (a.push c.pub) then
      some (s'.setCall k c (.notifying i))
    else some (s'.dropCall k)

def proceed (s : State β) (k : Nat) (c : Call β) : Option (State β) :=
  match c.progress with
  | .immediate => some { s.dropCall k with handed := s.handed ++ [(c.ch, c.pub)] }
  | .draining i => some ((s.setAcc i { s.pool i with flushNow := true }).setCall k c (.waiting i))
  | .waiting i =>
    let a := s.pool i
    if a.closed ∨ (a.buf = [] ∧ a.inFlight = 0) then some (s.setCall k c .immediate) else none
  | .appending i => append s k c i
  | .notifying i => some ((s.setAcc i { s.pool i with notify := true }).dropCall k)

def flusherStep (s : State β) (i : Nat) : Option (State β) :=
  let a := s.pool i
  let goto (f : Flusher β) := some (s.setAcc i { a with flusher := f })
  match a.flusher with
  | .select => none
  | .threshold => if thresholdReached s.settings a then goto .flush else goto .rearm
  | .timer => if a.buf = [] then goto .reaping else goto .flush
  | .flush =>
    if a.buf = [] then goto .rearm
    else some (s.setAcc i { a with
      buf := [], bytes := 0, inFlight := a.inFlight + 1, flusher := .broadcasting a.buf })
  | .broadcasting batch =>
    some { s.setAcc i { a with flusher := .returning } with
      handed := s.handed ++ batch.map (a.ch, ·) }
  | .returning => some (s.setAcc i { a with inFlight := a.inFlight - 1, flusher := .rearm })
  | .rearm => goto .select
  | .reaping => some (s.setAcc i { a with closed := true, flusher := .removing })
  | .removing =>
    some { s.setAcc i { a with flusher := .stopped } with
      accs := if s.accs a.ch = some i then Function.update s.accs a.ch none else s.accs }
  | .stopped => none

inductive Signal where
  | flushNow
  | notify
  | timer
  deriving DecidableEq, Repr

def signal (s : State β) (i : Nat) (sig : Signal) : Option (State β) :=
  let a := s.pool i
  match a.flusher, sig with
  | .select, .flushNow =>
    if a.flushNow then some (s.setAcc i { a with flushNow := false, flusher := .flush }) else none
  | .select, .notify =>
    if a.notify then some (s.setAcc i { a with notify := false, flusher := .threshold }) else none
  | .select, .timer => some (s.setAcc i { a with flusher := .timer })
  | _, _ => none

inductive Action (β : Type) where
  | deliver (ch : String) (pub : Publication β) (enabled : Bool) (subCount : Nat)
  | proceed (k : Nat)
  | flusher (i : Nat)
  | signal (i : Nat) (sig : Signal)

def step (s : State β) : Action β → Option (State β)
  | .deliver ch pub enabled subCount => some (deliver s ch pub enabled subCount)
  | .proceed k => s.calls[k]?.bind (proceed s k)
  | .flusher i => if i < s.created then flusherStep s i else none
  | .signal i sig => if i < s.created then signal s i sig else none

abbrev run : State β → List (Action β) → Option (State β) :=
  Transition.run step

/-- Every `Deliver` call has returned and no flusher has anything left to do. -/
def Quiescent (s : State β) : Prop :=
  s.calls = [] ∧ ∀ i < s.created, (s.pool i).flusher = .stopped ∨
    (s.pool i).flusher = .select ∧ (s.pool i).buf = []

instance [DecidableEq β] (s : State β) : Decidable (Quiescent s) :=
  inferInstanceAs (Decidable (_ ∧ ∀ i < s.created, _))

end MessageLoop.Batcher
