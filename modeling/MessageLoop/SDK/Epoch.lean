import MessageLoop.SDK.Client

/-!
The stream epoch of the cursors that a reconnect sends.

The client keeps an offset for each channel and one epoch, which every `Connected` frame overwrites.
`recorded` and `streamEpoch` read off the received frames where the offset of a channel comes from
and which epoch the last `Connected` has announced.
-/

namespace MessageLoop.SDK.Epoch

open Recover List Client

section Frames

def recordedBy (channel : String) (before : Option Position) (env : Envelope) : Option Position :=
  if env.channel = channel ∧ env.replay = false ∧ (offsetFrom env.position).isSome then env.position
  else before

def recordedAfter (channel : String) (before : Option Position) : Frame → Option Position
  | .publication envs => envs.foldl (recordedBy channel) before
  | .recoverComplete name position =>
    if name = channel ∧ name ≠ "" ∧ position.offset.isSome then some position else before
  | .unsubscribeAck channels => if channel ∈ channels then none else before
  | .connected _ _ | .subscribeAck _ => before

def recorded (channel : String) (frames : List Frame) : Option Position :=
  frames.foldl (recordedAfter channel) none

def epochAfter (before : String) : Frame → String
  | .connected epoch _ => epoch
  | _ => before

def streamEpoch (frames : List Frame) : String :=
  frames.foldl epochAfter ""

end Frames

section Machine

structure Reconnect where
  received : List Frame
  subscriptions : List ResumeSubscription
  deriving DecidableEq, Repr

structure State where
  client : Client
  received : List Frame
  sent : List Reconnect

/-- A drop changes neither subscriptions nor cursors, so a reconnect can come at any point. -/
inductive Action where
  | receive (frame : Frame)
  | reconnect
  deriving DecidableEq, Repr

def start (hasHandler : Bool) : State :=
  ⟨newClient hasHandler, [], []⟩

def step (s : State) : Action → State
  | .receive frame => { s with
      client := s.client.handleMessage frame
      received := s.received ++ [frame] }
  | .reconnect => { s with
      sent := s.sent ++ [⟨s.received, s.client.resumeSubscriptions⟩] }

def run (hasHandler : Bool) (actions : List Action) : State :=
  actions.foldl step (start hasHandler)

/-- Every cursor carries the epoch of the position its offset was recorded from. -/
def Tagged (r : Reconnect) : Prop :=
  ∀ sub ∈ r.subscriptions, ∀ cursor, sub.cursor = some cursor →
    ∃ position, recorded sub.channel r.received = some position ∧
      cursor.offset = position.offset ∧ cursor.streamEpoch = position.streamEpoch

/-- The last `Connected` has announced the epoch in which the offsets were recorded. -/
def SameEpoch (r : Reconnect) : Prop :=
  ∀ sub ∈ r.subscriptions, ∀ position, recorded sub.channel r.received = some position →
    position.streamEpoch = streamEpoch r.received

end Machine

section Following

/-- The client's epoch and offsets are those of the received frames. -/
structure Follows (c : Client) (frames : List Frame) : Prop where
  epoch : c.epoch = streamEpoch frames
  offsets : ∀ channel, c.channelOffsets channel = offsetFrom (recorded channel frames)
  located : ∀ channel position, recorded channel frames = some position → position.offset.isSome

variable {c : Client} {frames : List Frame} {channel : String}

theorem recorded_snoc (frame : Frame) :
    recorded channel (frames ++ [frame]) = recordedAfter channel (recorded channel frames) frame :=
  foldl_append

theorem streamEpoch_snoc (frame : Frame) :
    streamEpoch (frames ++ [frame]) = epochAfter (streamEpoch frames) frame :=
  foldl_append

theorem channelOffsets_trackOffset {before : Option Position} (env : Envelope)
    (h : c.channelOffsets channel = offsetFrom before) :
    (c.trackOffset env).channelOffsets channel = offsetFrom (recordedBy channel before env) := by
  unfold trackOffset recordedBy
  cases hreplay : env.replay with
  | true => simpa using h
  | false =>
    cases hoffset : offsetFrom env.position with
    | none => simpa [hoffset] using h
    | some offset =>
      by_cases hchannel : env.channel = channel
      · subst hchannel
        simp [hoffset]
      · simpa [hchannel, Function.update_of_ne (Ne.symm hchannel)] using h

theorem channelOffsets_foldl {before : Option Position} (envs : List Envelope)
    (h : c.channelOffsets channel = offsetFrom before) :
    (envs.foldl trackOffset c).channelOffsets channel =
      offsetFrom (envs.foldl (recordedBy channel) before) := by
  induction envs generalizing c before with
  | nil => exact h
  | cons env envs ih => exact ih (channelOffsets_trackOffset env h)

theorem epoch_foldl (envs : List Envelope) : (envs.foldl trackOffset c).epoch = c.epoch := by
  induction envs generalizing c with
  | nil => rfl
  | cons env envs ih =>
    have henv : (c.trackOffset env).epoch = c.epoch := by
      unfold trackOffset
      split
      · rfl
      · split <;> rfl
    exact ih.trans henv

theorem located_foldl {before : Option Position} (envs : List Envelope)
    (h : ∀ position, before = some position → position.offset.isSome) :
    ∀ position, envs.foldl (recordedBy channel) before = some position →
      position.offset.isSome := by
  induction envs generalizing before with
  | nil => exact h
  | cons env envs ih =>
    apply ih
    intro position hposition
    unfold recordedBy at hposition
    split at hposition
    · next hlive =>
      rw [hposition] at hlive
      exact hlive.2.2
    · exact h position hposition

theorem channelOffsets_forget (channels : List String) :
    (channels.foldl forget c).channelOffsets channel =
      if channel ∈ channels then none else c.channelOffsets channel := by
  induction channels generalizing c with
  | nil => simp
  | cons name channels ih =>
    rw [foldl_cons, ih]
    by_cases hname : channel = name
    · simp [forget, hname]
    · simp [forget, hname]

theorem epoch_forget (channels : List String) :
    (channels.foldl forget c).epoch = c.epoch := by
  induction channels generalizing c with
  | nil => rfl
  | cons name channels ih => exact ih

theorem acknowledged (subs : List ListedSubscription) :
    (subs.foldl acknowledge c).epoch = c.epoch ∧
      (subs.foldl acknowledge c).channelOffsets = c.channelOffsets := by
  induction subs generalizing c with
  | nil => exact ⟨rfl, rfl⟩
  | cons sub subs ih => exact ih (c := c.acknowledge sub)

variable (h : Follows c frames)
include h

theorem Follows.publication (envs : List Envelope) :
    Follows (c.handlePublication envs) (frames ++ [.publication envs]) := by
  refine ⟨?_, ?_, ?_⟩
  · have hepoch : (c.handlePublication envs).epoch = c.epoch := by
      have hfold := epoch_foldl (c := c) envs
      unfold handlePublication
      dsimp only
      split <;> exact hfold
    rw [hepoch, streamEpoch_snoc]
    exact h.epoch
  · intro channel
    rw [handlePublication_channelOffsets, recorded_snoc]
    exact channelOffsets_foldl envs (h.offsets channel)
  · intro channel
    rw [recorded_snoc]
    exact located_foldl envs (h.located channel)

theorem Follows.recoverComplete (name : String) (position : Position) :
    Follows (c.handleRecoverComplete name position)
      (frames ++ [.recoverComplete name position]) := by
  refine ⟨?_, ?_, ?_⟩
  · have hepoch : (c.handleRecoverComplete name position).epoch = c.epoch := by
      unfold handleRecoverComplete
      split
      · rfl
      · split <;> rfl
    rw [hepoch, streamEpoch_snoc]
    exact h.epoch
  · intro channel
    rw [recorded_snoc, recordedAfter]
    unfold handleRecoverComplete
    by_cases hname : name = ""
    · simpa [hname] using h.offsets channel
    · cases hoffset : position.offset with
      | none => simpa [hname, hoffset] using h.offsets channel
      | some offset =>
        by_cases hchannel : name = channel
        · subst hchannel
          simp [hname, offsetFrom, hoffset]
        · simpa [hname, hchannel, Function.update_of_ne (Ne.symm hchannel)] using h.offsets channel
  · intro channel position'
    rw [recorded_snoc, recordedAfter]
    split
    · next hset =>
      intro heq
      cases heq
      exact hset.2.2
    · exact h.located channel position'

theorem Follows.unsubscribeAck (channels : List String) :
    Follows (c.handleUnsubscribeAck channels) (frames ++ [.unsubscribeAck channels]) := by
  refine ⟨?_, ?_, ?_⟩
  · rw [handleUnsubscribeAck, epoch_forget, streamEpoch_snoc]
    exact h.epoch
  · intro channel
    rw [handleUnsubscribeAck, channelOffsets_forget, recorded_snoc, recordedAfter]
    split
    · rfl
    · exact h.offsets channel
  · intro channel position
    rw [recorded_snoc, recordedAfter]
    split
    · nofun
    · exact h.located channel position

theorem Follows.receive (frame : Frame) :
    Follows (c.handleMessage frame) (frames ++ [frame]) := by
  cases frame with
  | connected epoch listed =>
    refine ⟨?_, ?_, ?_⟩
    · rw [streamEpoch_snoc]
      rfl
    · intro channel
      rw [recorded_snoc]
      exact h.offsets channel
    · intro channel
      rw [recorded_snoc]
      exact h.located channel
  | subscribeAck subs =>
    obtain ⟨hepoch, hoffsets⟩ := acknowledged (c := c) subs
    refine ⟨?_, ?_, ?_⟩
    · rw [streamEpoch_snoc]
      exact hepoch.trans h.epoch
    · intro channel
      rw [recorded_snoc]
      exact (congrFun hoffsets channel).trans (h.offsets channel)
    · intro channel
      rw [recorded_snoc]
      exact h.located channel
  | unsubscribeAck channels => exact h.unsubscribeAck channels
  | publication envs => exact h.publication envs
  | recoverComplete name position => exact h.recoverComplete name position

theorem Follows.cursor {sub : ResumeSubscription} (hsub : sub ∈ c.resumeSubscriptions) :
    sub.cursor = (recorded sub.channel frames).map fun position =>
      ⟨streamEpoch frames, position.offset⟩ := by
  obtain ⟨⟨channel, state⟩, -, rfl⟩ := mem_map.mp hsub
  show (c.channelOffsets channel).map _ = _
  rw [h.offsets channel, h.epoch]
  cases hrecorded : recorded channel frames with
  | none => rfl
  | some position =>
    obtain ⟨offset, hoffset⟩ := Option.isSome_iff_exists.mp (h.located channel position hrecorded)
    simp [offsetFrom, hoffset]

theorem Follows.tagged_iff :
    Tagged ⟨frames, c.resumeSubscriptions⟩ ↔ SameEpoch ⟨frames, c.resumeSubscriptions⟩ := by
  constructor
  · intro htagged sub hsub position hposition
    have hcursor := h.cursor hsub
    rw [hposition] at hcursor
    obtain ⟨position', hposition', -, hepoch⟩ := htagged sub hsub _ hcursor
    cases hposition.symm.trans hposition'
    exact hepoch.symm
  · intro hsame sub hsub cursor hcursor
    rw [h.cursor hsub] at hcursor
    obtain ⟨position, hposition, rfl⟩ := Option.map_eq_some_iff.mp hcursor
    exact ⟨position, hposition, rfl, (hsame sub hsub position hposition).symm⟩

end Following

section Runs
variable {hasHandler : Bool}

theorem follows_run (actions : List Action) :
    Follows (run hasHandler actions).client (run hasHandler actions).received := by
  induction actions using reverseRecOn with
  | nil =>
    refine ⟨rfl, fun _ => rfl, ?_⟩
    intro channel position heq
    cases heq
  | append_singleton actions action ih =>
    rw [run, foldl_append]
    cases action with
    | receive frame => exact ih.receive frame
    | reconnect => exact ih

/-- In every run the cursors carry the epochs their offsets were recorded in exactly if, whenever the
client reconnects, the last `Connected` has announced the epoch of all the recorded positions of the
channels it asks for. -/
theorem cursor_epoch_iff (hasHandler : Bool) (actions : List Action) :
    (∀ r ∈ (run hasHandler actions).sent, Tagged r) ↔
      ∀ r ∈ (run hasHandler actions).sent, SameEpoch r := by
  induction actions using reverseRecOn with
  | nil => simp [run, start]
  | append_singleton actions action ih =>
    rw [run, foldl_append]
    cases action with
    | receive frame => exact ih
    | reconnect =>
      have hlast := (@follows_run hasHandler actions).tagged_iff
      simp only [foldl_cons, foldl_nil, step, mem_append, mem_singleton,
        or_imp, forall_and, forall_eq]
      exact and_congr ih hlast

/-- The stream is recreated while the client is away, and the second connection drops before its
recovery completes: the offset of epoch "e1" goes out with epoch "e2". -/
theorem cursor_epoch_mixed :
    ∃ r ∈ (run true [.receive (.connected "e1" [⟨"room", false, ""⟩]),
        .receive (.publication [⟨"room", some ⟨"e1", some 10⟩, false⟩]),
        .reconnect, .receive (.connected "e2" [⟨"room", false, ""⟩]), .reconnect]).sent,
      ∃ sub ∈ r.subscriptions, sub.cursor = some ⟨"e2", some 10⟩ ∧
        recorded sub.channel r.received = some ⟨"e1", some 10⟩ ∧ ¬ Tagged r := by
  refine ⟨_, mem_cons_of_mem _ mem_cons_self, _, mem_cons_self, rfl, rfl, ?_⟩
  intro htagged
  obtain ⟨position, hposition, -, hepoch⟩ := htagged _ mem_cons_self _ rfl
  cases hposition
  revert hepoch
  decide

end Runs

end MessageLoop.SDK.Epoch
