import MessageLoop.Lib.Weight
import MessageLoop.Runtime.Batcher

/-!
One accumulator of the batcher under any number of calls of `append`, `flush`, `flushAndWait` and
`close`. Each label is one critical section, or what a call does between two of them.
-/

namespace MessageLoop.Batcher.Monitor

open List

variable {β : Type}

/-- Where a call stands; one that is blocked or waiting has released the lock. -/
inductive Point (β : Type) where
  | append (pub : Publication β)
  | immediate (pub : Publication β)
  | notifying
  | flush
  | broadcasting (batch : List (Publication β))
  | flushAndWait
  | waiting
  | close
  | returned
  deriving DecidableEq, Repr

def Point.broadcasts : Point β → Nat
  | .broadcasting _ => 1
  | _ => 0

def Point.drains : Point β → Bool
  | .flushAndWait | .waiting => true
  | _ => false

structure State (β : Type) where
  acc : Accumulator β
  calls : List (Point β)
  deriving DecidableEq, Repr

def State.start (ch : String) : State β :=
  ⟨newChannelAccumulator ch, []⟩

def State.broadcasts (s : State β) : Nat :=
  (s.calls.map Point.broadcasts).sum

def drained (a : Accumulator β) : Prop :=
  a.closed ∨ a.buf = [] ∧ a.inFlight = 0

instance (a : Accumulator β) : Decidable (drained a) :=
  inferInstanceAs (Decidable (_ ∨ _))

section Steps
variable (settings : Settings)

def advance (a : Accumulator β) : Point β → Option (Accumulator β × Point β)
  | .append pub =>
    if a.closed then some (a, .immediate pub)
    else if full settings a pub.size then none
    else some (a.push pub,
      if a.buf = [] ∨ thresholdReached settings (a.push pub) then .notifying else .returned)
  | .immediate _ => some (a, .returned)
  | .notifying => some ({ a with notify := true }, .returned)
  | .flush =>
    if a.buf = [] then some (a, .returned)
    else some ({ a with buf := [], bytes := 0, inFlight := a.inFlight + 1 }, .broadcasting a.buf)
  | .broadcasting _ => some ({ a with inFlight := a.inFlight - 1 }, .returned)
  | .flushAndWait => some ({ a with flushNow := true }, if drained a then .returned else .waiting)
  | .waiting => if drained a then some (a, .returned) else none
  | .close => some ({ a with closed := true }, .returned)
  | .returned => none

inductive Action (β : Type) where
  | append (pub : Publication β)
  | flush
  | flushAndWait
  | close
  | go (k : Nat)
  deriving DecidableEq, Repr

def State.spawn (s : State β) (p : Point β) : State β :=
  { s with calls := s.calls ++ [p] }

def step (s : State β) : Action β → Option (State β)
  | .append pub => some (s.spawn (.append pub))
  | .flush => some (s.spawn .flush)
  | .flushAndWait => some (s.spawn .flushAndWait)
  | .close => some (s.spawn .close)
  | .go k => s.calls[k]?.bind fun p => (advance settings s.acc p).map fun r =>
      ⟨r.1, s.calls.set k r.2⟩

abbrev run : State β → List (Action β) → Option (State β) :=
  Transition.run (step settings)

end Steps

structure Bounded (settings : Settings) (a : Accumulator β) : Prop where
  messages : a.buf.length ≤ settings.maxMessages
  sum : a.bytes = (a.buf.map Publication.size).sum
  bytes : a.bytes ≤ settings.maxBatchBytes

structure Sound (settings : Settings) (s : State β) : Prop where
  bounded : Bounded settings s.acc
  inFlight : s.acc.inFlight = s.broadcasts

variable {settings : Settings} {s t : State β} {a b : Accumulator β} {p q : Point β} {k : Nat}

theorem Bounded.push {pub : Publication β} (h : Bounded settings a)
    (hroom : ¬ full settings a pub.size) : Bounded settings (a.push pub) := by
  obtain ⟨hmessages, hbytes⟩ : a.buf.length < settings.maxMessages ∧
      a.bytes + pub.size ≤ settings.maxBatchBytes := by
    simpa [full] using hroom
  refine ⟨?_, by simp [Accumulator.push, h.sum], hbytes⟩
  rw [Accumulator.push, length_append]
  exact hmessages

theorem advance_spec (h : Bounded settings a) (hcounted : p.broadcasts ≤ a.inFlight)
    (hadvance : advance settings a p = some (b, q)) :
    Bounded settings b ∧ b.inFlight + p.broadcasts = a.inFlight + q.broadcasts ∧
      (p.drains → q = .returned → b.closed = false → b.buf = [] ∧ b.inFlight = 0) := by
  cases p with
  | append pub =>
    simp only [advance] at hadvance
    split_ifs at hadvance with hclosed hfull <;> cases hadvance
    · exact ⟨h, rfl, nofun⟩
    · exact ⟨h.push hfull, rfl, nofun⟩
    · exact ⟨h.push hfull, rfl, nofun⟩
  | flush =>
    simp only [advance] at hadvance
    split_ifs at hadvance <;> cases hadvance
    · exact ⟨h, rfl, nofun⟩
    · exact ⟨⟨Nat.zero_le _, rfl, Nat.zero_le _⟩, rfl, nofun⟩
  | broadcasting batch =>
    cases hadvance
    exact ⟨{ h with }, Nat.sub_add_cancel hcounted, nofun⟩
  | flushAndWait =>
    cases hadvance
    refine ⟨{ h with }, by split_ifs <;> rfl, ?_⟩
    intro _ hreturned hopen
    split_ifs at hreturned with hdrained
    exact hdrained.resolve_left (ne_true_of_eq_false hopen)
  | waiting =>
    simp only [advance] at hadvance
    split_ifs at hadvance with hdrained
    cases hadvance
    exact ⟨h, rfl, fun _ _ hopen => hdrained.resolve_left (ne_true_of_eq_false hopen)⟩
  | returned => cases hadvance
  | immediate | notifying | close =>
    cases hadvance
    exact ⟨{ h with }, rfl, nofun⟩

theorem Sound.counted (h : Sound settings s) (hk : s.calls[k]? = some p) :
    p.broadcasts ≤ s.acc.inFlight := by
  have hsum := Weight.sum_map_eraseIdx Point.broadcasts hk
  rw [h.inFlight, State.broadcasts]
  omega

theorem Sound.go (h : Sound settings s) (hk : s.calls[k]? = some p)
    (hadvance : advance settings s.acc p = some (b, q)) : Sound settings ⟨b, s.calls.set k q⟩ := by
  obtain ⟨hbounded, hmoved, -⟩ := advance_spec h.bounded (h.counted hk) hadvance
  have hset : (⟨b, s.calls.set k q⟩ : State β).broadcasts + p.broadcasts =
      s.broadcasts + q.broadcasts := Weight.sum_map_set Point.broadcasts q hk
  rw [h.inFlight] at hmoved
  exact ⟨hbounded, Nat.add_right_cancel (hmoved.trans hset.symm)⟩

theorem Sound.spawn (h : Sound settings s) (hidle : p.broadcasts = 0) :
    Sound settings (s.spawn p) := by
  refine ⟨h.bounded, h.inFlight.trans ?_⟩
  simp [State.broadcasts, State.spawn, hidle]

theorem Sound.step {x : Action β} (h : Sound settings s)
    (hstep : Monitor.step settings s x = some t) : Sound settings t := by
  cases x with
  | go k =>
    obtain ⟨p, ⟨b, q⟩, hk, hadvance, rfl⟩ := Option.bind_map_eq_some hstep
    exact h.go hk hadvance
  | _ =>
    cases hstep
    exact h.spawn rfl

/-- In every run the buffer keeps within both caps, the counters count what they stand for, and
`flushAndWait` returns on an open accumulator only when it is drained. -/
theorem accumulator_bounds {ch : String} {as : List (Action β)}
    (hrun : run settings (.start ch) as = some s) :
    s.acc.buf.length ≤ settings.maxMessages ∧
    s.acc.bytes = (s.acc.buf.map Publication.size).sum ∧
    s.acc.bytes ≤ settings.maxBatchBytes ∧ s.acc.inFlight = s.broadcasts ∧
    ∀ k p t, s.calls[k]? = some p → p.drains → step settings s (.go k) = some t →
      t.calls[k]? = some .returned → t.acc.closed = false →
      t.acc.buf = [] ∧ t.broadcasts = 0 := by
  have h : Sound settings s := Transition.invariant
    ⟨⟨Nat.zero_le _, rfl, Nat.zero_le _⟩, rfl⟩ (fun _ _ _ hs hstep => hs.step hstep) hrun
  refine ⟨h.bounded.messages, h.bounded.sum, h.bounded.bytes, h.inFlight, ?_⟩
  intro k p t hk hdrains hstep hreturned hopen
  obtain ⟨p', ⟨b, q⟩, hk', hadvance, rfl⟩ := Option.bind_map_eq_some hstep
  cases hk.symm.trans hk'
  rw [getElem?_set_self (List.getElem?_eq_some_iff.mp hk).1] at hreturned
  obtain ⟨-, -, hdrained⟩ := advance_spec h.bounded (h.counted hk) hadvance
  obtain ⟨hbuf, hnone⟩ := hdrained hdrains (Option.some.inj hreturned) hopen
  exact ⟨hbuf, (h.go hk hadvance).inFlight.symm.trans hnone⟩

def drainedRun : List (Action Unit) :=
  [.append ⟨1, 4, ()⟩, .append ⟨2, 4, ()⟩, .go 0, .go 1, .flush, .flushAndWait, .go 2, .go 3, .go 2]

/-- `flushAndWait` has waited for the broadcast of a full buffer. -/
theorem accumulator_bounds_drained :
    ∃ s t, run ⟨0, 2, 8⟩ (.start "room") drainedRun = some s ∧
      step ⟨0, 2, 8⟩ s (.go 3) = some t ∧ t.acc.buf = [] ∧ t.broadcasts = 0 :=
  ⟨_, _, rfl, rfl, (accumulator_bounds (rfl : run ⟨0, 2, 8⟩ (.start "room") drainedRun = _)).2.2.2.2
    3 .waiting _ rfl rfl rfl rfl rfl⟩

end MessageLoop.Batcher.Monitor
