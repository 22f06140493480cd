import MessageLoop.Redis.Live

/-!
The delivery baselines of the Redis broker, its maps `lastOffsets` and `lastSeqs`
(`pkg/redisbroker/pubsub.go`, `redis.go`). The look at the interest, the comparison and the write of
`deliverOnce` are steps of their own, so that `Subscribe` and `Unsubscribe` fall between them.
-/

namespace MessageLoop.Redis.Baseline

variable {β : Type}

/-- A publication on its way through `deliverOnce`; `passed` says that its offset was found new. -/
structure Delivery (β : Type) where
  pub : Publication β
  passed : Bool

structure State (β : Type) where
  broker : Redis.State β
  deliveries : List (Delivery β)
  pass : List String

def State.start : State β := ⟨.start (fun _ => 0) [], [], []⟩

inductive Action (β : Type) where
  | subscribe (ch : String)
  | unsubscribe (ch : String)
  | receive (p : Publication β)
  | catchUp (channels : List String)
  | replay (p : Publication β)
  | compare (k : Nat)
  | record (k : Nat)

def record (b : Redis.State β) (p : Publication β) : Redis.State β :=
  { b with
    lastOffsets := Function.update b.lastOffsets p.channel (some p.offset)
    lastSeqs := if 0 < p.seq then Function.update b.lastSeqs p.channel (some p.seq) else b.lastSeqs }

/-- A catch-up pass on no channels is the end of the one before. A comparison waits for the lock
until the write before it is done; an offset of 0 is handed on without it. -/
def step (s : State β) : Action β → Option (State β)
  | .subscribe ch => some { s with broker := subscribe s.broker ch }
  | .unsubscribe ch => some { s with broker := unsubscribe s.broker ch }
  | .receive p =>
    if interested s.broker p.channel then some { s with deliveries := s.deliveries ++ [⟨p, false⟩] }
    else some s
  | .catchUp channels =>
    if channels.all fun ch => 0 < s.broker.subscribed ch && (s.broker.lastOffsets ch).any (0 < ·) then
      some { s with pass := channels }
    else none
  | .replay p =>
    if s.pass.any (· = p.channel) then some { s with deliveries := s.deliveries ++ [⟨p, false⟩] }
    else none
  | .compare k => s.deliveries[k]?.bind fun d =>
    if d.pub.offset = 0 then some { s with deliveries := s.deliveries.eraseIdx k }
    else if s.deliveries.any Delivery.passed then none
    else if (s.broker.lastOffsets d.pub.channel).any (d.pub.offset ≤ ·) then
      some { s with deliveries := s.deliveries.eraseIdx k }
    else some { s with deliveries := s.deliveries.set k ⟨d.pub, true⟩ }
  | .record k => s.deliveries[k]?.bind fun d =>
    if d.passed then
      some { s with broker := record s.broker d.pub, deliveries := s.deliveries.eraseIdx k }
    else none

abbrev run : State β → List (Action β) → Option (State β) :=
  Transition.run step

def Quiescent (s : State β) : Prop :=
  s.deliveries.isEmpty = true ∧ s.pass = []

def HasBaseline (b : Redis.State β) (ch : String) : Prop :=
  b.lastOffsets ch ≠ none ∨ b.lastSeqs ch ≠ none

def DeliversIf (P : Redis.State β → String → Prop) (s : State β) : Action β → Prop
  | .record k => ∀ d ∈ s.deliveries[k]?, P s.broker d.pub.channel
  | _ => True

abbrev Exact : State β → Action β → Prop :=
  DeliversIf fun b ch => 0 < b.subscribed ch

variable {s t : State β} {a : Action β} {b : Redis.State β} {ch x : String}

theorem subscribed_subscribe (h : 0 < b.subscribed ch) : 0 < (subscribe b x).subscribed ch := by
  unfold subscribe
  split
  · exact h
  · split_ifs
    · exact h
    · by_cases hx : ch = x
      · simp [hx]
      · simpa [Function.update_of_ne hx] using h

theorem hasBaseline_subscribe : HasBaseline (subscribe b x) ch ↔ HasBaseline b ch := by
  unfold subscribe
  split
  · rfl
  · split_ifs <;> rfl

theorem hasBaseline_unsubscribe (h : HasBaseline (unsubscribe b x) ch) : HasBaseline b ch ∧
    (0 < b.subscribed ch → 0 < (unsubscribe b x).subscribed ch) := by
  unfold unsubscribe at h ⊢
  split_ifs at h ⊢ with hw hlast
  · exact ⟨h, id⟩
  · have hx : ch ≠ x := by
      rintro rfl
      simp [HasBaseline] at h
    simpa [HasBaseline, hx] using h
  · refine ⟨h, fun hpos => ?_⟩
    by_cases hx : ch = x
    · subst hx
      simp only [Function.update_self]
      omega
    · simpa [hx] using hpos

theorem hasBaseline_record {p : Publication β} (h : HasBaseline (record b p) ch)
    (hne : ch ≠ p.channel) : HasBaseline b ch := by
  unfold HasBaseline record at *
  split_ifs at h <;> simpa [hne] using h

/-- The steps `compare` and `record`, with nothing between them, are one `deliverOnce`: what passes
the comparison is recorded and handed on. -/
theorem deliverOnce_eq_record {p : Publication β} (hoff : p.offset ≠ 0)
    (hnew : (b.lastOffsets p.channel).any (p.offset ≤ ·) = false) :
    deliverOnce b p = { record b p with outgoing := some p } := by
  simp [deliverOnce, record, hoff, hnew]

theorem step_broker (hstep : step s a = some t) :
    t.broker = s.broker ∨ (∃ x, t.broker = subscribe s.broker x) ∨
      (∃ x, t.broker = unsubscribe s.broker x) ∨
      ∃ k d, a = .record k ∧ s.deliveries[k]? = some d ∧ t.broker = record s.broker d.pub := by
  cases a with
  | subscribe x =>
    cases hstep
    exact .inr (.inl ⟨x, rfl⟩)
  | unsubscribe x =>
    cases hstep
    exact .inr (.inr (.inl ⟨x, rfl⟩))
  | record k =>
    obtain ⟨d, hd, hstep⟩ := Option.bind_eq_some_iff.mp hstep
    split_ifs at hstep
    cases hstep
    exact .inr (.inr (.inr ⟨k, d, rfl, hd, rfl⟩))
  | compare k =>
    obtain ⟨d, -, hstep⟩ := Option.bind_eq_some_iff.mp hstep
    split_ifs at hstep <;> cases hstep <;> exact .inl rfl
  | _ =>
    simp only [step] at hstep
    split_ifs at hstep <;> cases hstep <;> exact .inl rfl

theorem bounded_step (h : ∀ ch, HasBaseline s.broker ch → 0 < s.broker.subscribed ch)
    (hexact : Exact s a) (hstep : step s a = some t) :
    ∀ ch, HasBaseline t.broker ch → 0 < t.broker.subscribed ch := by
  intro ch hch
  obtain heq | ⟨x, heq⟩ | ⟨x, heq⟩ | ⟨k, d, rfl, hd, heq⟩ := step_broker hstep <;> rw [heq] at hch ⊢
  · exact h ch hch
  · exact subscribed_subscribe (h ch (hasBaseline_subscribe.mp hch))
  · obtain ⟨hold, hkeep⟩ := hasBaseline_unsubscribe hch
    exact hkeep (h ch hold)
  · by_cases hne : ch = d.pub.channel
    · subst hne
      exact hexact d hd
    · exact h ch (hasBaseline_record hch hne)

theorem fresh_step (h : ¬ HasBaseline s.broker ch) (hother : DeliversIf (fun _ x => x ≠ ch) s a)
    (hstep : step s a = some t) : ¬ HasBaseline t.broker ch := by
  intro hch
  obtain heq | ⟨x, heq⟩ | ⟨x, heq⟩ | ⟨k, d, rfl, hd, heq⟩ := step_broker hstep <;> rw [heq] at hch
  · exact h hch
  · exact h (hasBaseline_subscribe.mp hch)
  · exact h (hasBaseline_unsubscribe hch).1
  · exact h (hasBaseline_record hch (hother d hd).symm)

theorem baselines_bounded {as : List (Action β)} (hrun : run .start as = some s)
    (hexact : Transition.Along step Exact .start as) :
    (∀ ch, HasBaseline s.broker ch → 0 < s.broker.subscribed ch) ∧
      ∀ ch bs t, s.broker.subscribed ch = 0 → run s (.subscribe ch :: bs) = some t →
        Transition.Along step (DeliversIf fun _ x => x ≠ ch) s (.subscribe ch :: bs) →
          ¬ HasBaseline t.broker ch := by
  have hbound : ∀ ch, HasBaseline s.broker ch → 0 < s.broker.subscribed ch :=
    Transition.invariant_along
      (P := fun s : State β => ∀ ch, HasBaseline s.broker ch → 0 < s.broker.subscribed ch)
      (fun ch h => by simp [HasBaseline, State.start, Redis.State.start] at h)
      (fun _ _ _ h hok hstep => bounded_step h hok hstep) hrun hexact
  refine ⟨hbound, fun ch bs t hlost hregain hother => ?_⟩
  have hfresh : ¬ HasBaseline s.broker ch := fun h => absurd (hbound ch h) (by omega)
  exact Transition.invariant_along (P := fun t : State β => ¬ HasBaseline t.broker ch) hfresh
    (fun _ _ _ h hok hstep => fresh_step h hok hstep) hregain hother

def roomRun : List (Action Unit) :=
  [.subscribe "room", .receive ⟨"room", (), 5, 1⟩, .compare 0, .record 0]

theorem baselines_bounded_room : ∃ s, run .start roomRun = some s ∧
    s.broker.lastOffsets "room" = some 5 ∧ 0 < s.broker.subscribed "room" := by
  have hexact : Transition.Along step Exact .start roomRun := by
    refine ⟨trivial, fun _ h => ?_⟩
    cases h
    refine ⟨trivial, fun _ h => ?_⟩
    cases h
    refine ⟨trivial, fun _ h => ?_⟩
    cases h
    exact ⟨fun d hd => by cases hd; decide +kernel, fun _ _ => trivial⟩
  have hrun : run .start roomRun = some _ := rfl
  exact ⟨_, hrun, by decide +kernel, (baselines_bounded hrun hexact).1 "room" (.inl (by decide +kernel))⟩

/-- A publication that only a pattern covers leaves a baseline that the next exact interest
finds. -/
theorem baseline_left_by_pattern : ∃ s t : State Unit,
    run .start [.subscribe "room.a", .subscribe "room.*", .unsubscribe "room.a",
      .receive ⟨"room.a", (), 5, 1⟩, .compare 0, .record 0] = some s ∧ Quiescent s ∧
      s.broker.subscribed "room.a" = 0 ∧ s.broker.lastOffsets "room.a" = some 5 ∧
      s.broker.lastSeqs "room.a" = some 1 ∧ step s (.subscribe "room.a") = some t ∧
      t.broker.lastOffsets "room.a" = some 5 := by
  refine ⟨_, _, rfl, ⟨?_, ?_⟩, ?_, ?_, ?_, rfl, ?_⟩ <;> decide +kernel

end MessageLoop.Redis.Baseline
