import MessageLoop.Lib.Transition
import MessageLoop.Session.State

/-!
The send queue of a session with its writer (`sendQueue` and `writerLoop` in
`internal/session/session.go`). Sends, the writer and `close` interleave in any way.
-/

namespace MessageLoop.SendQueue

open List

inductive Writer where
  | idle
  | writing (frame : QueuedFrame)
  | stopped

def Writer.frames : Writer → List QueuedFrame
  | writing frame => [frame]
  | _ => []

/-- `accepted` are the frames that sends have queued, `written` and `failed` those that have got
their result from the writer and from `close`. -/
structure State where
  queue : SendQueue
  writer : Writer
  accepted : List QueuedFrame
  written : List QueuedFrame
  failed : List QueuedFrame

def State.start : State := ⟨.new, .idle, [], [], []⟩

def State.taken (s : State) : List QueuedFrame :=
  s.written ++ s.writer.frames ++ s.failed

inductive Action where
  | send (frame : QueuedFrame)
  | dequeue
  | write (ok : Bool)
  | close

def step (s : State) : Action → Option State
  | .send frame =>
    match s.queue.tryEnqueue frame with
    | .ok q => some { s with queue := q, accepted := s.accepted ++ [frame] }
    | .error _ => some s
  | .dequeue =>
    match s.writer, s.queue.dequeue with
    | .idle, some (frame, q) => some { s with queue := q, writer := .writing frame }
    | .idle, none => if s.queue.closed then some { s with writer := .stopped } else none
    | _, _ => none
  | .write ok =>
    match s.writer with
    | .writing frame =>
      some { s with writer := if ok then .idle else .stopped, written := s.written ++ [frame] }
    | _ => none
  | .close =>
    if s.queue.closed then some s
    else some { s with queue := s.queue.close, failed := s.queue.control ++ s.queue.data }

def lane (q : SendQueue) (control : Bool) : List QueuedFrame :=
  if control then q.control else q.data

structure Inv (s : State) : Prop where
  depths : s.queue.control.length ≤ sendQueueControlDepth ∧ s.queue.data.length ≤ sendQueueDataDepth
  kept : ∀ c, s.accepted.filter (·.control = c) = s.taken.filter (·.control = c) ++ s.queue.lane c
  closed : if s.queue.closed then ∀ c, s.queue.lane c = [] else s.failed = []

variable {s t : State} {a : Action} {as : List Action} {f : QueuedFrame} {q : SendQueue}

theorem Inv.control_eq (h : Inv s) : ∀ c, ∀ f ∈ s.queue.lane c, f.control = c := by
  intro c f hf
  have hmem : f ∈ s.accepted.filter (·.control = c) := h.kept c ▸ mem_append_right _ hf
  simpa using (mem_filter.mp hmem).2

theorem Inv.failed_eq (h : Inv s) (hopen : s.queue.closed = false) : s.failed = [] := by
  simpa [hopen] using h.closed

theorem Inv.kept_send (h : Inv s)
    (hlane : ∀ c, q.lane c = s.queue.lane c ++ if f.control = c then [f] else []) (c : Bool) :
    (s.accepted ++ [f]).filter (·.control = c) = s.taken.filter (·.control = c) ++ q.lane c := by
  rw [filter_append, h.kept c, hlane c, append_assoc]
  by_cases hc : f.control = c <;> simp [hc]

theorem Inv.send (h : Inv s) (hq : s.queue.tryEnqueue f = .ok q) :
    Inv { s with queue := q, accepted := s.accepted ++ [f] } := by
  unfold tryEnqueue at hq
  split_ifs at hq with hclosed hcontrol hfull hfull
  · cases hq
    refine ⟨⟨?_, h.depths.2⟩, h.kept_send fun c => ?_, ?_⟩
    · rw [length_append]
      exact Nat.lt_of_not_le hfull
    · cases c <;> simp [lane, hcontrol]
    · simpa [hclosed] using h.failed_eq (by simpa using hclosed)
  · cases hq
    refine ⟨⟨h.depths.1, ?_⟩, h.kept_send fun c => ?_, ?_⟩
    · rw [length_append]
      exact Nat.lt_of_not_le hfull
    · cases c <;> simp [lane, hcontrol]
    · simpa [hclosed] using h.failed_eq (by simpa using hclosed)

theorem dequeue_cases {q₀ : SendQueue} (hq : q₀.dequeue = some (f, q)) :
    q₀.closed = false ∧
      (q₀ = { q with control := f :: q.control } ∨
        q.control = [] ∧ q₀ = { q with data := f :: q.data }) := by
  obtain ⟨closed, control, data⟩ := q₀
  unfold SendQueue.dequeue at hq
  split_ifs at hq with hclosed
  refine ⟨by simpa using hclosed, ?_⟩
  split at hq
  · next hcontrol =>
    cases hq
    exact .inl (by simp_all)
  · next hcontrol hdata =>
    cases hq
    exact .inr (by simp_all)
  · cases hq

theorem Inv.dequeue (h : Inv s) (hidle : s.writer = .idle) (hq : s.queue.dequeue = some (f, q)) :
    Inv { s with queue := q, writer := .writing f } ∧
      (f.control = false → s.queue.control = []) := by
  obtain ⟨hopen, hfrom⟩ := dequeue_cases hq
  have hfailed := h.failed_eq hopen
  obtain ⟨hcontrol, hdata⟩ := h.depths
  have hkept : ∀ c, s.accepted.filter (·.control = c) =
      s.written.filter (·.control = c) ++ s.queue.lane c := by
    simpa [State.taken, hidle, Writer.frames, hfailed] using h.kept
  obtain hqueue | ⟨hempty, hqueue⟩ := hfrom
  · have hf : f.control = true := h.control_eq true f (by simp [hqueue, lane])
    have hqopen : q.closed = false := by simpa [hqueue] using hopen
    rw [hqueue] at hcontrol hdata hkept
    refine ⟨⟨⟨Nat.le_of_succ_le hcontrol, hdata⟩, fun c => ?_, by simpa [hqopen] using hfailed⟩,
      by simp [hf]⟩
    rw [hkept c]
    cases c <;> simp [State.taken, Writer.frames, hfailed, hf, lane]
  · have hf : f.control = false := h.control_eq false f (by simp [hqueue, lane])
    have hqopen : q.closed = false := by simpa [hqueue] using hopen
    rw [hqueue] at hcontrol hdata hkept
    refine ⟨⟨⟨hcontrol, Nat.le_of_succ_le hdata⟩, fun c => ?_, by simpa [hqopen] using hfailed⟩,
      fun _ => by rw [hqueue, hempty]⟩
    rw [hkept c]
    cases c <;> simp [State.taken, Writer.frames, hfailed, hf, lane]

theorem Inv.close (h : Inv s) (hopen : s.queue.closed = false) :
    Inv { s with queue := s.queue.close, failed := s.queue.control ++ s.queue.data } := by
  have hfailed := h.failed_eq hopen
  obtain ⟨hdata, hcontrol⟩ := Bool.forall_bool.mp h.control_eq
  refine ⟨by simp [SendQueue.close], fun c => ?_, by simp [SendQueue.close, lane]⟩
  have hkept := h.kept c
  cases c <;> simp_all [State.taken, SendQueue.close, lane, filter_eq_self.mpr,
    filter_eq_nil_iff.mpr]

theorem Inv.step (h : Inv s) (hstep : step s a = some t) : Inv t := by
  cases a with
  | send frame =>
    simp only [SendQueue.step] at hstep
    split at hstep <;> cases hstep
    · next hq => exact h.send hq
    · exact h
  | dequeue =>
    simp only [SendQueue.step] at hstep
    split at hstep
    · next hidle hq =>
      cases hstep
      exact (h.dequeue hidle hq).1
    · next hidle _ =>
      split_ifs at hstep
      cases hstep
      exact ⟨h.depths, by simpa [State.taken, hidle, Writer.frames] using h.kept, h.closed⟩
    · cases hstep
  | write ok =>
    simp only [SendQueue.step] at hstep
    split at hstep <;> cases hstep
    next hwriting =>
    refine ⟨h.depths, ?_, h.closed⟩
    cases ok <;> simpa [State.taken, hwriting, Writer.frames] using h.kept
  | close =>
    simp only [SendQueue.step] at hstep
    split_ifs at hstep with hclosed <;> cases hstep
    · exact h
    · exact h.close (by simpa using hclosed)

theorem queue_delivers (hrun : Transition.run step .start as = some s) :
    (s.queue.control.length ≤ sendQueueControlDepth ∧ s.queue.data.length ≤ sendQueueDataDepth) ∧
    (∀ c, s.accepted.filter (·.control = c) = s.taken.filter (·.control = c) ++ s.queue.lane c) ∧
    (∀ f q, s.writer = .idle → s.queue.dequeue = some (f, q) → f.control = false →
      s.queue.control = []) ∧
    (s.queue.closed = true → s.writer = .stopped → s.accepted.Perm (s.written ++ s.failed)) := by
  have hstart : Inv .start := ⟨by simp [State.start, new], by decide, rfl⟩
  have h : Inv s := Transition.invariant hstart (fun _ _ _ => Inv.step) hrun
  refine ⟨h.depths, h.kept, fun f q hidle hq => (h.dequeue hidle hq).2, ?_⟩
  intro hclosed hstopped
  have hempty : ∀ c, s.queue.lane c = [] := by simpa [hclosed] using h.closed
  refine perm_iff_count.mpr fun f => ?_
  have hcount := congrArg (count f) (h.kept f.control)
  simpa [hempty, count_filter, State.taken, hstopped, Writer.frames] using hcount

def closedRun : List Action :=
  [.send ⟨1, false, []⟩, .send ⟨1, true, []⟩, .dequeue, .close, .write true, .dequeue]

theorem queue_delivers_closed :
    ∃ s, Transition.run step .start closedRun = some s ∧ s.accepted.Perm (s.written ++ s.failed) :=
  ⟨_, rfl, (@queue_delivers _ closedRun rfl).2.2.2 rfl rfl⟩

end MessageLoop.SendQueue
