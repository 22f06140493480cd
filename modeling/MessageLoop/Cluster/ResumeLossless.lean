import MessageLoop.Lib.Locks
import MessageLoop.Runtime.Cells
import MessageLoop.Cluster.Resume

/-!
When a cross-node resume loses no acknowledged subscription.

While no subscription call has failed, the stored snapshot differs from the tracked channels only
where a call has still to store its own change. The claim stops all later stores, so the snapshot
the claiming node has read is the one that stands when the owner is fenced.
-/

namespace MessageLoop.Resume

open Cells List Function

variable {cfg : Config} {n t : Node} {calls : List OwnerCall} {b : SubCall} {k : Nat} {ok : Bool}
variable {ch : String} {channels : List String} {w : Cell}

section Path
variable {v : Cell}

def onPath (c : SubCall) : Bool :=
  match c.pc with
  | .start | .commit _ | .returned .ok => true
  | _ => false

/-- A step of the call has failed: it is rolling back, or has returned the error. -/
def failing (c : SubCall) : Bool :=
  match c.pc with
  | .rollback _ _ | .returned (.failed _) => true
  | _ => false

/-- The call has tracked or untracked its channel and has still to store that. -/
def unsynced (c : SubCall) : Bool :=
  match c.pc with
  | .commit .broker | .commit .session => true
  | _ => false

def isAdd : CallOp → Bool
  | .add _ => true
  | _ => false

/-- Whether the session is subscribed in the hub and tracks the channel, at the steps of a call
that has not failed. -/
def expects : CallOp → Pc → Option (Bool × Bool)
  | .add _, .commit .hub => some (false, false)
  | .add _, .commit .client => some (true, false)
  | .add _, .commit _ => some (true, true)
  | .remove, .commit .hub => some (true, true)
  | .remove, .commit .client => some (false, true)
  | .remove, .commit _ => some (false, false)
  | _, _ => none

def Expected (v : Cell) (c : SubCall) : Prop :=
  ∀ x y, expects c.op c.pc = some (x, y) → v.subscribed = x ∧ (v.tracked ↔ y)

structure PathStep (v w : Cell) (a b : SubCall) : Prop where
  path : onPath b
  expected : Expected w b
  returned : b.pc = .returned .ok → w.subscribed = isAdd b.op ∧ (w.tracked ↔ isAdd b.op)
  stored : (w.tracked ↔ v.tracked) ∨ unsynced b
  unsynced : unsynced a → unsynced b
  locked : b.holds ∨ b.pc = .returned .ok
  found : a.acquires → b.holds → v.subscribed = !isAdd b.op

variable {a : SubCall}

theorem Expected.of_eq {c : SubCall} {x y : Bool} (h : expects c.op c.pc = some (x, y))
    (hx : v.subscribed = x) (hy : v.tracked ↔ y) : Expected v c := by
  intro x' y' h'
  rw [h] at h'
  cases h'
  exact ⟨hx, hy⟩

theorem PathStep.inside {x y : Bool} (hpath : onPath b) (hholds : b.holds)
    (hexpects : expects b.op b.pc = some (x, y)) (hx : w.subscribed = x) (hy : w.tracked ↔ y)
    (hstored : (w.tracked ↔ v.tracked) ∨ Resume.unsynced b)
    (hunsynced : Resume.unsynced a = false ∨ Resume.unsynced b)
    (hfound : a.acquires = false ∨ v.subscribed = !isAdd b.op) : PathStep v w a b where
  path := hpath
  expected := .of_eq hexpects hx hy
  returned := by
    intro hpc
    rw [SubCall.holds, hpc] at hholds
    cases hholds
  stored := hstored
  unsynced := by
    intro ha
    rcases hunsynced with hsynced | hb
    · rw [ha] at hsynced
      cases hsynced
    · exact hb
  locked := .inl hholds
  found := by
    intro ha _
    rcases hfound with hout | hfound
    · rw [ha] at hout
      cases hout
    · exact hfound

theorem PathStep.returns (hpc : b.pc = .returned .ok) (hsubscribed : w.subscribed = isAdd b.op)
    (htracked : w.tracked ↔ isAdd b.op) (hstored : w.tracked ↔ v.tracked)
    (hsynced : Resume.unsynced a = false) : PathStep v w a b where
  path := by rw [onPath, hpc]
  expected := by
    intro x y hxy
    rw [hpc] at hxy
    cases hop : b.op <;> rw [hop] at hxy <;> cases hxy
  returned := fun _ => ⟨hsubscribed, htracked⟩
  stored := .inl hstored
  unsynced := by
    intro ha
    rw [ha] at hsynced
    cases hsynced
  locked := .inr hpc
  found := by
    intro _ hholds
    rw [SubCall.holds, hpc] at hholds
    cases hholds

theorem failing_unwind (a : SubCall) (failed k : SagaStep) : failing (a.unwind failed k) := by
  cases k <;> rfl

variable (hpath : onPath a) (hsync : a.atSync = false)
variable (hexpected : Expected (cell n a.session a.channel) a)
variable (hfree : a.acquires → ((cell n a.session a.channel).tracked ↔ (cell n a.session a.channel).subscribed))
include hpath hsync hexpected hfree

theorem pathStep_add {e : Bool} (hop : a.op = .add e) (hsub : a.subscriber.session = a.session)
    (h : SubCall.Move n a ok t b) : failing b ∨ ∃ w, Updates a.session a.channel n t w ∧
      PathStep (cell n a.session a.channel) w a b := by
  obtain ⟨op, c, ch, sub, flag, pc⟩ := a
  obtain rfl : op = .add e := hop
  obtain rfl : sub.session = c := hsub
  cases h with
  | addFound hlookup =>
    have hsome : (cell n sub.session ch).subscribed = true := by simp [cell, hlookup]
    have htracked := hfree rfl
    rw [hsome] at htracked
    exact .inr ⟨_, updates_refl, .returns rfl hsome htracked Iff.rfl rfl⟩
  | addStart hlookup =>
    have hnone : (cell n sub.session ch).subscribed = false := by simp [cell, hlookup]
    have htracked := hfree rfl
    rw [hnone] at htracked
    exact .inr ⟨_, updates_refl,
      .inside rfl rfl rfl hnone htracked (.inl Iff.rfl) (.inl rfl) (.inr hnone)⟩
  | addCommit _ hcommit =>
    right
    cases hcommit with
    | hub hadd =>
      obtain ⟨hnone, htracked⟩ := hexpected false false rfl
      have hlookup : n.lookupSubscriber ch sub.session = none := by simpa [cell] using hnone
      exact ⟨_, updates_addSub rfl hlookup hadd,
        .inside rfl rfl rfl rfl htracked (.inl Iff.rfl) (.inl rfl) (.inl rfl)⟩
    | client _ =>
      obtain ⟨hsome, -⟩ := hexpected true false rfl
      exact ⟨_, updates_forceTrackChannel, .inside rfl rfl rfl hsome (iff_of_true trivial rfl)
        (.inr rfl) (.inr rfl) (.inl rfl)⟩
    | brokerKept =>
      obtain ⟨hsome, htracked⟩ := hexpected true true rfl
      exact ⟨_, updates_refl,
        .inside rfl rfl rfl hsome htracked (.inr rfl) (.inr rfl) (.inl rfl)⟩
    | broker =>
      obtain ⟨hsome, htracked⟩ := hexpected true true rfl
      exact ⟨_, updates_setInterest,
        .inside rfl rfl rfl hsome htracked (.inr rfl) (.inr rfl) (.inl rfl)⟩
    | session _ => cases hsync
    | channel hadjust =>
      obtain ⟨hsome, htracked⟩ := hexpected true true rfl
      exact ⟨_, updates_adjust hadjust, .returns rfl hsome htracked Iff.rfl rfl⟩
  | commitFailed _ => exact .inl (failing_unwind _ _ _)
  | _ => cases hpath

theorem pathStep_remove (hop : a.op = .remove) (hpat : n.hub.Patterned (n.sessionID a.session))
    (h : SubCall.Move n a ok t b) : failing b ∨ ∃ w, Updates a.session a.channel n t w ∧
      PathStep (cell n a.session a.channel) w a b := by
  obtain ⟨op, c, ch, sub, flag, pc⟩ := a
  obtain rfl : op = .remove := hop
  cases h with
  | removeMissing hlookup =>
    have hnone : (cell n c ch).subscribed = false := by simp [cell, hlookup]
    have htracked := hfree rfl
    rw [hnone] at htracked
    exact .inr ⟨_, updates_refl, .returns rfl hnone htracked Iff.rfl rfl⟩
  | removeStart hlookup =>
    have hsome : (cell n c ch).subscribed = true := by simp [cell, hlookup]
    have htracked := hfree rfl
    rw [hsome] at htracked
    exact .inr ⟨_, updates_refl,
      .inside rfl rfl rfl hsome htracked (.inl Iff.rfl) (.inl rfl) (.inr hsome)⟩
  | removeCommit hcommit =>
    right
    cases hcommit with
    | hub hremove =>
      obtain ⟨-, htracked⟩ := hexpected true true rfl
      obtain ⟨-, last, hupdates⟩ := updates_of_removeSub hpat hremove
      exact ⟨_, hupdates,
        .inside rfl rfl rfl rfl htracked (.inl Iff.rfl) (.inl rfl) (.inl rfl)⟩
    | client =>
      obtain ⟨hnone, -⟩ := hexpected false true rfl
      exact ⟨_, updates_untrackChannel, .inside rfl rfl rfl hnone
        (iff_of_false not_false Bool.false_ne_true) (.inr rfl) (.inr rfl) (.inl rfl)⟩
    | brokerKept =>
      obtain ⟨hnone, htracked⟩ := hexpected false false rfl
      exact ⟨_, updates_refl,
        .inside rfl rfl rfl hnone htracked (.inr rfl) (.inr rfl) (.inl rfl)⟩
    | broker =>
      obtain ⟨hnone, htracked⟩ := hexpected false false rfl
      exact ⟨_, updates_setInterest,
        .inside rfl rfl rfl hnone htracked (.inr rfl) (.inr rfl) (.inl rfl)⟩
    | session _ => cases hsync
    | channel hadjust =>
      obtain ⟨hnone, htracked⟩ := hexpected false false rfl
      exact ⟨_, updates_adjust hadjust, .returns rfl hnone htracked Iff.rfl rfl⟩
  | commitFailed _ => exact .inl (failing_unwind _ _ _)
  | addCommit hne _ => exact absurd rfl hne
  | _ => cases hpath

end Path

section Property

/-- What the claiming node restores is what the owner had acknowledged when it was fenced. -/
def Lossless (s : State) : Prop :=
  ∀ snapshot channels, s.phase = .returned (.resumed snapshot) → s.fenced = some channels →
    snapshot.channels = channels

/-- The subscription calls made before the owner is fenced have completed successfully by then. -/
def Completed (s : State) : Action → Prop
  | .selfFence _ _ | .handle _ => s.fenced = none → ∀ c ∈ s.calls, c.call.pc = .returned .ok
  | _ => True

instance (s : State) (a : Action) : Decidable (Completed s a) := by
  unfold Completed
  split <;> infer_instance

/-- Another call than `k` has still to store what it has done to the channel. -/
def Pending (s : State) (k : Option Nat) (ch : String) : Prop :=
  ∃ j < s.calls.length, some j ≠ k ∧
    s.calls[j]?.any fun c => unsynced c.call && c.call.channel == ch

instance (s : State) (k : Option Nat) (ch : String) : Decidable (Pending s k ch) :=
  inferInstanceAs (Decidable (∃ j < _, _))

def Phase.read : Phase → Option SessionSnapshot
  | .claim _ snapshot => some snapshot
  | _ => none

/-- A store that undoes no other store, and does not change what the claim relies on. -/
def Harmless (cfg : Config) (s : State) (k : Option Nat) (y : Sync) : Prop :=
  (∀ ch ∈ y.snapshot.channels ∪ s.node.tracked cfg.session,
    (ch ∈ y.snapshot.channels ↔ ch ∈ s.node.tracked cfg.session) ∨ Pending s k ch) ∧
  ∀ read ∈ s.phase.read, y.snapshot.channels = read.channels

instance (cfg : Config) (s : State) (k : Option Nat) (y : Sync) :
    Decidable (Harmless cfg s k y) :=
  inferInstanceAs (Decidable (_ ∧ _))

/-- No stale snapshot overwrites a stored change, and none is stored between the read and the
claim of the resume that would change it. -/
def InOrder (cfg : Config) (s : State) : Action → Prop
  | .call k _ => ∀ c ∈ s.calls[k]?, ∀ y ∈ c.sync, y.stores → Harmless cfg s (some k) y
  | .sync k _ => ∀ y ∈ s.refreshes[k]?, y.stores → Harmless cfg s none y
  | _ => True

instance (cfg : Config) (s : State) : (a : Action) → Decidable (InOrder cfg s a)
  | .call k _ => inferInstanceAs (Decidable
      (∀ c ∈ s.calls[k]?, ∀ y ∈ c.sync, y.stores → Harmless cfg s (some k) y))
  | .sync k _ => inferInstanceAs (Decidable
      (∀ y ∈ s.refreshes[k]?, y.stores → Harmless cfg s none y))
  | .add .. | .remove .. | .refresh | .selfFence .. | .handle .. | .fence .. | .resume .. | .reply
  | .giveUp | .nodeLease .. => isTrue trivial

end Property

section Tracking

structure Proceeding (cfg : Config) (c : OwnerCall) : Prop where
  session : c.call.session = cfg.session
  subscriber : isAdd c.call.op → c.call.subscriber.session = cfg.session
  op : isAdd c.call.op ∨ c.call.op = .remove
  path : onPath c.call
  sync : c.sync ≠ none → c.call.pc = .commit .session

/-- Hub, tracked set and acknowledgements agree on every channel, up to the call at work on it. -/
structure Tracks (cfg : Config) (n : Node) (calls : List OwnerCall) (acked : Finset String) :
    Prop where
  enabled : n.clusterEnabled
  sessionID : n.sessionID cfg.session = cfg.sessionID
  patterned : n.hub.Patterned (n.sessionID cfg.session)
  proceeding : ∀ c ∈ calls, Proceeding cfg c
  exclusive : Locks.Exclusive holdsLock calls
  holders : ∀ c ∈ calls, c.call.holds →
    Expected (cell n cfg.session c.call.channel) c.call ∧
      (c.call.channel ∈ acked ↔ ¬ isAdd c.call.op)
  free : ∀ ch, (∀ c ∈ calls, ¬ holdsLock c ch) →
    ((cell n cfg.session ch).tracked ↔ (cell n cfg.session ch).subscribed) ∧
      (ch ∈ acked ↔ (cell n cfg.session ch).subscribed)

variable {acked : Finset String}
variable {c : OwnerCall}

theorem Tracks.spawn (h : Tracks cfg n calls acked) (hc : Proceeding cfg c)
    (hidle : c.call.holds = false) : Tracks cfg n (calls ++ [c]) acked := by
  have hout : ∀ ch, ¬ holdsLock c ch := by
    intro ch hlock
    rw [holdsLock, hidle] at hlock
    cases hlock.1
  refine { h with
    proceeding := forall_mem_snoc h.proceeding hc
    exclusive := h.exclusive.append (forall_mem_singleton.mpr hout)
    holders := ?_
    free := ?_ }
  · refine forall_mem_snoc h.holders fun hholds => ?_
    rw [hidle] at hholds
    cases hholds
  · intro ch hfree
    exact h.free ch (fun d hd => hfree d (mem_append_left _ hd))

theorem Tracks.setSync (h : Tracks cfg n calls acked) (hk : calls[k]? = some c) {d : OwnerCall}
    (hd : Proceeding cfg d) (hchannel : d.call.channel = c.call.channel)
    (hop : d.call.op = c.call.op) (hholds : d.call.holds) (hheld : c.call.holds)
    (hexpects : expects d.call.op d.call.pc = expects c.call.op c.call.pc) :
    Tracks cfg n (calls.set k d) acked := by
  have hc := mem_of_getElem? hk
  refine ⟨h.enabled, h.sessionID, h.patterned, ?_, ?_, ?_, ?_⟩
  · exact forall_mem_set h.proceeding hd
  · apply h.exclusive.set hk
    intro ch hlock
    exact .inl ⟨hheld, hchannel ▸ hlock.2⟩
  · intro e he heholds
    rcases mem_or_eq_of_mem_set he with he | rfl
    · exact h.holders e he heholds
    · obtain ⟨hexp, hacked⟩ := h.holders c hc hheld
      rw [hchannel, hop]
      refine ⟨?_, hacked⟩
      intro x y hxy
      rw [hexpects] at hxy
      exact hexp x y hxy
  · intro ch hfree
    apply h.free ch
    intro e he hlock
    by_cases hec : e = c
    · subst hec
      exact hfree d (Locks.mem_set_self hk) ⟨hholds, hchannel.trans hlock.2⟩
    · exact hfree e (Locks.mem_set_of_mem_ne hk he hec) hlock

theorem path_cases {a : SubCall} (h : onPath a) : a.acquires ∨ a.holds ∨ a.pc = .returned .ok := by
  obtain ⟨op, c, x, sub, flag, pc⟩ := a
  cases pc with
  | start => exact .inl rfl
  | commit k => exact .inr (.inl rfl)
  | returned r =>
    cases r with
    | ok => exact .inr (.inr rfl)
    | _ => cases h
  | _ => cases h

theorem expects_of_acquires {a : SubCall} (h : a.acquires) : expects a.op a.pc = none := by
  obtain ⟨op, c, x, sub, flag, pc⟩ := a
  cases pc with
  | start | undoRemove => cases op <;> rfl
  | _ => cases h

theorem mem_acknowledge_of_ne {a : SubCall} (hch : ch ≠ a.channel) :
    ch ∈ acknowledge acked a ↔ ch ∈ acked := by
  unfold acknowledge
  split
  · rw [Finset.mem_insert, or_iff_right hch]
  · rw [Finset.mem_erase, and_iff_right hch]
  · exact Iff.rfl

theorem acknowledge_of_holds {a : SubCall} (h : a.holds) : acknowledge acked a = acked := by
  obtain ⟨op, c, x, sub, flag, pc⟩ := a
  cases pc with
  | returned r => cases h
  | _ => cases op <;> rfl

theorem mem_acknowledge_of_returned {a : SubCall} (hop : isAdd a.op ∨ a.op = .remove)
    (h : a.pc = .returned .ok) : a.channel ∈ acknowledge acked a ↔ isAdd a.op := by
  unfold acknowledge
  rw [h]
  cases hop' : a.op with
  | add e | remove => simp [isAdd]
  | restore e =>
    rw [hop'] at hop
    rcases hop with hop | hop <;> cases hop

theorem Tracks.move (h : Tracks cfg n calls acked) (hk : calls[k]? = some c)
    (hlocked : c.call.acquires ∨ c.call.holds)
    (hfreed : c.call.acquires → ∀ d ∈ calls, ¬ holdsLock d c.call.channel)
    (hcont : SubCall.Continues n c.call b) (hup : Updates cfg.session c.call.channel n t w)
    (hpath : PathStep (cell n cfg.session c.call.channel) w c.call b) :
    Tracks cfg t (calls.set k ⟨b, none⟩) (acknowledge acked b) := by
  have hc := mem_of_getElem? hk
  have hproc := h.proceeding c hc
  have halone : ∀ (j : Nat) (d : OwnerCall), calls[j]? = some d → holdsLock d c.call.channel →
      j = k := by
    intro j d hj hlock
    rcases hlocked with hacq | hholds
    · exact absurd hlock (hfreed hacq d (mem_of_getElem? hj))
    · exact h.exclusive j k d c c.call.channel hj hk hlock ⟨hholds, rfl⟩
  have hproc' : Proceeding cfg ⟨b, none⟩ := by
    refine ⟨hcont.session.trans hproc.session, ?_, ?_, hpath.path, fun hne => absurd rfl hne⟩
    · intro hadd
      rw [hcont.op] at hadd
      rw [hcont.subscriber.resolve_right (by rintro ⟨hop, -⟩; rw [hop] at hadd; cases hadd)]
      exact hproc.subscriber hadd
    · rw [hcont.op]
      exact hproc.op
  refine ⟨?_, ?_, ?_, ?_, ?_, ?_, ?_⟩
  · rw [hup.enabled]
    exact h.enabled
  · rw [hup.sessionID]
    exact h.sessionID
  · rw [hup.sessionID]
    exact hup.patterned h.patterned
  · exact forall_mem_set h.proceeding hproc'
  · apply h.exclusive.set hk
    rintro ch ⟨-, hch⟩
    obtain rfl : c.call.channel = ch := hcont.channel.symm.trans hch
    rcases hlocked with hacq | hholds
    · exact .inr (hfreed hacq)
    · exact .inl ⟨hholds, rfl⟩
  · intro d hd hholds
    obtain ⟨j, hj⟩ := mem_iff_getElem?.mp hd
    rcases Locks.getElem?_set_cases hj with ⟨-, rfl⟩ | ⟨hne, hj⟩
    · rw [acknowledge_of_holds hholds, hcont.channel, hup.here]
      refine ⟨hpath.expected, ?_⟩
      rcases hlocked with hacq | hheld
      · rw [(h.free c.call.channel (hfreed hacq)).2, hpath.found hacq hholds]
        cases isAdd b.op <;> simp
      · rw [(h.holders c hc hheld).2, hcont.op]
    · have hch : d.call.channel ≠ c.call.channel := by
        intro hch
        exact hne (halone j d hj ⟨hholds, hch⟩)
      rw [hup.others _ hch, mem_acknowledge_of_ne (hcont.channel ▸ hch)]
      exact h.holders d (mem_of_getElem? hj) hholds
  · intro ch hnone
    by_cases hch : ch = c.call.channel
    · subst hch
      have hpc : b.pc = .returned .ok := by
        rcases hpath.locked with hholds | hpc
        · exact absurd ⟨hholds, hcont.channel⟩ (hnone ⟨b, none⟩ (Locks.mem_set_self hk))
        · exact hpc
      obtain ⟨hsubscribed, htracked⟩ := hpath.returned hpc
      rw [hup.here]
      refine ⟨by rw [htracked, hsubscribed], ?_⟩
      rw [← hcont.channel, mem_acknowledge_of_returned hproc'.op hpc, hsubscribed]
    · rw [hup.others ch hch, mem_acknowledge_of_ne (hcont.channel ▸ hch)]
      apply h.free ch
      intro d hd hlock
      refine hnone d (Locks.mem_set_of_mem_ne hk hd ?_) hlock
      rintro rfl
      exact hch hlock.2.symm

theorem Tracks.step (h : Tracks cfg n calls acked) (hk : calls[k]? = some c)
    (hsync : c.call.atSync = false)
    (hblocked : ¬ Calls.blocked ⟨n, calls.map OwnerCall.call⟩ c.call)
    (hstep : c.call.step n ok = some (t, b)) :
    failing b ∨ Tracks cfg t (calls.set k ⟨b, none⟩) (acknowledge acked b) ∧
      (∀ ch, (ch ∈ t.tracked cfg.session ↔ ch ∈ n.tracked cfg.session) ∨
        unsynced b ∧ b.channel = ch) ∧
      (unsynced c.call → unsynced b ∧ b.channel = c.call.channel) ∧
      t.sessions cfg.session =
        { n.sessions cfg.session with subscribedChannels := t.tracked cfg.session } := by
  have hc := mem_of_getElem? hk
  have hproc := h.proceeding c hc
  have hlocked : c.call.acquires ∨ c.call.holds := by
    rcases path_cases hproc.path with hacq | hholds | hpc
    · exact .inl hacq
    · exact .inr hholds
    · simp [SubCall.step, hpc] at hstep
  have hfreed : c.call.acquires → ∀ d ∈ calls, ¬ holdsLock d c.call.channel := by
    intro hacq d hd hlock
    exact hblocked ⟨hacq, d.call, mem_map_of_mem hd, hlock⟩
  have hexpected : Expected (cell n c.call.session c.call.channel) c.call := by
    rw [hproc.session]
    rcases hlocked with hacq | hholds
    · intro x y hxy
      rw [expects_of_acquires hacq] at hxy
      cases hxy
    · exact (h.holders c hc hholds).1
  have hbalanced : c.call.acquires → ((cell n c.call.session c.call.channel).tracked ↔
      (cell n c.call.session c.call.channel).subscribed) := by
    intro hacq
    rw [hproc.session]
    exact (h.free c.call.channel (hfreed hacq)).1
  have hmove := SubCall.move_of_step hstep
  have hcont := hmove.continues
  have hadvance : failing b ∨ ∃ w, Updates cfg.session c.call.channel n t w ∧
      PathStep (cell n cfg.session c.call.channel) w c.call b := by
    rw [← hproc.session]
    cases hop : c.call.op with
    | add e =>
      have hsub := hproc.subscriber (by rw [hop]; rfl)
      exact pathStep_add hproc.path hsync hexpected hbalanced hop
        (hsub.trans hproc.session.symm) hmove
    | remove =>
      have hpat : n.hub.Patterned (n.sessionID c.call.session) := by
        rw [hproc.session]
        exact h.patterned
      exact pathStep_remove hproc.path hsync hexpected hbalanced hop hpat hmove
    | restore e =>
      have hop' := hproc.op
      rw [hop] at hop'
      rcases hop' with hop' | hop' <;> cases hop'
  rcases hadvance with hfailing | ⟨w, hup, hpath⟩
  · exact .inl hfailing
  right
  refine ⟨?_, ?_, fun hun => ⟨hpath.unsynced hun, hcont.channel⟩, hup.session⟩
  · exact h.move hk hlocked hfreed hcont hup hpath
  · intro ch
    by_cases hch : ch = c.call.channel
    · subst hch
      rcases hpath.stored with hsame | hun
      · exact .inl ((iff_of_eq (congrArg Cell.tracked hup.here)).trans hsame)
      · exact .inr ⟨hun, hcont.channel⟩
    · exact .inl (iff_of_eq (congrArg Cell.tracked (hup.others ch hch)))

end Tracking

section Storing
variable {c : OwnerCall} {y : Sync}

def Phase.abandoned : Phase → Bool
  | .rollback _ _ | .returned .error | .returned .notFound => true
  | _ => false

def Phase.lease : Phase → Option SessionLease
  | .getSnapshot lease | .claim lease _ => some lease
  | _ => none

def Phase.snapshot : Phase → Option SessionSnapshot
  | .claim _ snapshot | .request _ _ snapshot | .wait _ _ snapshot | .getNodeLease _ _ snapshot
  | .returned (.resumed snapshot) => some snapshot
  | _ => none

def State.version (cfg : Config) (s : State) : Nat :=
  (s.node.sessions cfg.session).leaseVersion

structure Live (cfg : Config) (s : State) : Prop where
  tracks : Tracks cfg s.node s.calls s.acked
  unfenced : s.fence = none ∧ s.fenced = none
  going : s.phase.abandoned = false
  syncs : ∀ c ∈ s.calls, ∀ y ∈ c.sync, y.Of cfg.sessionID cfg.owner (s.version cfg)
  refreshes : ∀ y ∈ s.refreshes, y.Of cfg.sessionID cfg.owner (s.version cfg)
  lease : ∃ lease, s.directory.leases cfg.sessionID = some lease ∧
    (s.phase.early → lease.HeldBy cfg.sessionID cfg.owner (s.version cfg)) ∧
    (s.phase.early = false → lease.owner = cfg.claimant)
  seen : ∀ lease ∈ s.phase.lease, lease.HeldBy cfg.sessionID cfg.owner (s.version cfg)
  stored : ∃ stored, s.directory.snapshots cfg.sessionID = some stored ∧
    (∀ ch, (ch ∈ stored.channels ↔ ch ∈ s.node.tracked cfg.session) ∨
      ∃ c ∈ s.calls, unsynced c.call ∧ c.call.channel = ch) ∧
    ∀ read ∈ s.phase.snapshot, read.channels = stored.channels
  quiet : s.phase.early → s.command = .none ∧ ∀ y ∈ s.refreshes, y.pc ≠ .returned .fenced

/-- The owner was fenced when what it had acknowledged was what the resume restores. -/
structure Matched (s : State) : Prop where
  late : s.phase.early = false
  restored : ∃ snapshot, s.phase.snapshot = some snapshot ∧ s.fenced = some snapshot.channels

/-- The resume has failed, or will before the owner is fenced with all calls completed. -/
def Void (s : State) : Prop :=
  s.phase.abandoned ∨ s.fenced = none ∧ ∃ c ∈ s.calls, failing c.call

def Accounted (cfg : Config) (s : State) : Prop :=
  Live cfg s ∨ Matched s ∨ Void s

variable {s s' : State} {a : Action}
variable {d d' : Directory} {command command' : Command} {phase phase' : Phase}

theorem Accounted.lossless (h : Accounted cfg s) : Lossless s := by
  intro snapshot channels hphase hfenced
  rcases h with hlive | hmatched | habandoned | ⟨hnone, -⟩
  · rw [hlive.unfenced.2] at hfenced
    cases hfenced
  · obtain ⟨read, hread, hchannels⟩ := hmatched.restored
    rw [hphase] at hread
    cases hread
    rw [hchannels] at hfenced
    cases hfenced
    rfl
  · rw [hphase] at habandoned
    cases habandoned
  · rw [hnone] at hfenced
    cases hfenced

theorem failing_step {a : SubCall} (hfailing : failing a) (h : a.step n ok = some (t, b)) :
    failing b := by
  obtain ⟨op, c, ch, sub, flag, pc⟩ := a
  cases pc with
  | rollback failed j =>
    obtain ⟨-, rfl⟩ := Prod.mk.inj (Option.some.inj h)
    cases j <;> rfl
  | returned r => cases h
  | _ => cases hfailing

theorem failing_synced {a : SubCall} (hfailing : failing a) : failing (a.synced ok) := by
  obtain ⟨op, c, ch, sub, flag, pc⟩ := a
  cases pc with
  | rollback failed j => rfl
  | returned r => exact hfailing
  | _ => cases hfailing

theorem Claims.abandoned (h : Claims cfg d command a phase d' command' phase')
    (hphase : phase.abandoned) : phase'.abandoned := by
  cases h with
  | stops _ lost => rcases lost with rfl | rfl <;> rfl
  | rolledBack => rfl
  | _ => cases hphase

theorem abandoned_step (hphase : s.phase.abandoned) (h : step cfg s a = some s') :
    s'.phase.abandoned := by
  cases ha : a.ofClaimant with
  | false =>
    rw [(keeps_owner ha h).1]
    exact hphase
  | true =>
    obtain ⟨d, command, phase, rfl, hclaims⟩ := claimant_cases ha h
    exact hclaims.abandoned hphase

theorem void_calls (hfenced : s.fenced = none) (hc : c ∈ s.calls) (hfailing : failing c.call)
    (hcompleted : Completed s a) (h : step cfg s a = some s') :
    s'.fenced = none ∧ ∃ c ∈ s'.calls, failing c.call := by
  have hkeep : ∀ calls : List OwnerCall, (∀ d ∈ s.calls, d ∈ calls) → ∃ c ∈ calls, failing c.call :=
    fun calls hsub => ⟨c, hsub c hc, hfailing⟩
  have hset : ∀ (k : Nat) (d e : OwnerCall), s.calls[k]? = some d →
      (failing d.call → failing e.call) → ∃ c ∈ s.calls.set k e, failing c.call :=
    fun k d e hd hde => Locks.exists_mem_set hd hde ⟨c, hc, hfailing⟩
  have hnot : ¬ ∀ d ∈ s.calls, d.call.pc = .returned .ok := by
    intro hall
    have hpc := hall c hc
    unfold failing at hfailing
    rw [hpc] at hfailing
    cases hfailing
  cases ha : a.ofClaimant with
  | true =>
    obtain ⟨d, command, phase, rfl, -⟩ := claimant_cases ha h
    exact ⟨hfenced, hkeep _ (fun _ hd => hd)⟩
  | false =>
    cases a with
    | add ch e | remove ch =>
      cases h
      exact ⟨hfenced, hkeep _ (fun _ hd => mem_append_left _ hd)⟩
    | call k ok =>
      obtain ⟨d, hd, ⟨y, r, -, -, rfl⟩ | ⟨-, -, rfl⟩ | ⟨-, -, -, r, hr, rfl⟩⟩ := OwnerCall.step_cases h
      · refine ⟨hfenced, hset k d _ hd ?_⟩
        intro hf
        unfold OwnerCall.afterSync
        split
        · exact failing_synced hf
        · exact hf
      · exact ⟨hfenced, hset k d _ hd (fun hf => hf)⟩
      · exact ⟨hfenced, hset k d _ hd (fun hf => failing_step hf hr)⟩
    | refresh =>
      simp only [step] at h
      split_ifs at h
      cases h
      exact ⟨hfenced, hkeep _ (fun _ hd => hd)⟩
    | sync k ok =>
      obtain ⟨y, r, -, -, rfl⟩ := Option.bind_map_eq_some h
      exact ⟨hfenced, hkeep _ (fun _ hd => hd)⟩
    | selfFence k channels | handle channels => exact absurd (hcompleted hfenced) hnot
    | fence ok adjusted =>
      obtain ⟨f, forCommand, -, ⟨n, f', -, rfl⟩ | ⟨n, succeeded, -, rfl⟩⟩ := fenceStep_cases h <;>
        exact ⟨hfenced, hkeep _ (fun _ hd => hd)⟩
    | _ => cases ha

theorem void_step (hvoid : Void s) (hcompleted : Completed s a) (h : step cfg s a = some s') :
    Void s' := by
  rcases hvoid with hphase | ⟨hfenced, c, hc, hfailing⟩
  · exact .inl (abandoned_step hphase h)
  · exact .inr (void_calls hfenced hc hfailing hcompleted h)

theorem fenced_step {channels : Finset String} (hfenced : s.fenced = some channels)
    (h : step cfg s a = some s') : s'.fenced = some channels := by
  cases ha : a.ofClaimant with
  | true =>
    obtain ⟨d, command, phase, rfl, -⟩ := claimant_cases ha h
    exact hfenced
  | false => exact (keeps_owner ha h).2 channels hfenced

theorem Claims.late {read : SessionSnapshot} (h : Claims cfg d command a phase d' command' phase')
    (hlate : phase.early = false) (hread : phase.snapshot = some read) :
    phase'.abandoned ∨ phase'.early = false ∧ phase'.snapshot = some read ∧ d' = d ∧
      phase'.lease = none := by
  cases h with
  | stops early =>
    rw [early] at hlate
    cases hlate
  | leased | read | claimed => cases hlate
  | rolledBack => exact .inl rfl
  | requested | unsent | gaveUp =>
    cases hread
    exact .inr ⟨rfl, rfl, rfl, rfl⟩
  | replied succeeded =>
    cases hread
    cases succeeded <;> exact .inr ⟨rfl, rfl, rfl, rfl⟩
  | checked =>
    cases hread
    split_ifs
    · exact .inr ⟨rfl, rfl, rfl, rfl⟩
    · exact .inl rfl

theorem Matched.step (hmatched : Matched s) (h : step cfg s a = some s') :
    Matched s' ∨ Void s' := by
  obtain ⟨read, hread, hfenced⟩ := hmatched.restored
  have hfenced' := fenced_step hfenced h
  cases ha : a.ofClaimant with
  | false =>
    have hphase := (keeps_owner ha h).1
    exact .inl ⟨hphase ▸ hmatched.late, read, hphase ▸ hread, hfenced'⟩
  | true =>
    obtain ⟨d, command, phase, rfl, hclaims⟩ := claimant_cases ha h
    rcases hclaims.late hmatched.late hread with habandoned | ⟨hlate, hread', -⟩
    · exact .inr (.inl habandoned)
    · exact .inl ⟨hlate, read, hread', hfenced'⟩

theorem unsynced_set {e : OwnerCall} (hk : calls[k]? = some c)
    (hun : unsynced c.call → unsynced e.call ∧ e.call.channel = c.call.channel)
    (h : ∃ c ∈ calls, unsynced c.call ∧ c.call.channel = ch) :
    ∃ c ∈ calls.set k e, unsynced c.call ∧ c.call.channel = ch := by
  refine Locks.exists_mem_set hk ?_ h
  rintro ⟨hc, hch⟩
  exact ⟨(hun hc).1, (hun hc).2.trans hch⟩

theorem Pending.exists {k : Option Nat} (h : Pending s k ch) :
    ∃ j d, s.calls[j]? = some d ∧ some j ≠ k ∧ unsynced d.call ∧ d.call.channel = ch := by
  obtain ⟨j, -, hjk, hany⟩ := h
  cases hj : s.calls[j]? with
  | none =>
    rw [hj] at hany
    cases hany
  | some d =>
    rw [hj] at hany
    simp only [Option.any_some, Bool.and_eq_true, beq_iff_eq] at hany
    exact ⟨j, d, hj, hjk, hany⟩

theorem snapshot_of_early (hearly : s.phase.early) : s.phase.snapshot = s.phase.read := by
  cases hp : s.phase with
  | getLease | getSnapshot _ | claim _ _ => rfl
  | _ =>
    rw [hp] at hearly
    cases hearly

theorem stored_of_harmless {j : Option Nat} (calls : List OwnerCall)
    (hharmless : Harmless cfg s j y) (hearly : s.phase.early)
    (hcalls : ∀ (i : Nat) (d : OwnerCall), s.calls[i]? = some d → some i ≠ j → d ∈ calls) :
    (∀ ch, (ch ∈ y.snapshot.channels ↔ ch ∈ s.node.tracked cfg.session) ∨
      ∃ c ∈ calls, unsynced c.call ∧ c.call.channel = ch) ∧
    ∀ read ∈ s.phase.snapshot, read.channels = y.snapshot.channels := by
  constructor
  · intro ch
    by_cases hch : ch ∈ y.snapshot.channels ∪ s.node.tracked cfg.session
    · rcases hharmless.1 ch hch with hsame | hpending
      · exact .inl hsame
      · obtain ⟨i, d, hi, hij, hun⟩ := hpending.exists
        exact .inr ⟨d, hcalls i d hi hij, hun⟩
    · left
      rw [Finset.mem_union, not_or] at hch
      exact iff_of_false hch.1 hch.2
  · intro read hread
    rw [snapshot_of_early hearly] at hread
    exact (hharmless.2 read hread).symm

theorem session_of_atSync {a : SubCall} (hpath : onPath a) (hat : a.atSync) :
    a.pc = .commit .session := by
  obtain ⟨op, c, ch, sub, flag, pc⟩ := a
  cases pc with
  | commit j =>
    cases j with
    | session => rfl
    | _ => cases hat
  | rollback failed j => cases hpath
  | _ => cases hat

theorem snapshot_of_late (hlate : s.phase.early = false) (hgoing : s.phase.abandoned = false) :
    ∃ read, s.phase.snapshot = some read := by
  cases hp : s.phase with
  | getLease | getSnapshot _ | claim _ _ =>
    rw [hp] at hlate
    cases hlate
  | request _ _ snapshot | wait _ _ snapshot | getNodeLease _ _ snapshot => exact ⟨snapshot, rfl⟩
  | rollback _ _ =>
    rw [hp] at hgoing
    cases hgoing
  | returned result =>
    rw [hp] at hgoing
    cases result with
    | resumed snapshot => exact ⟨snapshot, rfl⟩
    | _ => cases hgoing

section
variable (hlive : Live cfg s)
include hlive

theorem Live.spawn {c : SubCall} (hc : Proceeding cfg ⟨c, none⟩)
    (hidle : c.holds = false) : Live cfg (s.spawn c) := by
  refine { hlive with tracks := hlive.tracks.spawn hc hidle, syncs := ?_, stored := ?_ }
  · exact forall_mem_snoc hlive.syncs nofun
  · obtain ⟨stored, hstored, hchannels, hread⟩ := hlive.stored
    refine ⟨stored, hstored, ?_, hread⟩
    intro ch
    rcases hchannels ch with hsame | ⟨d, hd, hun⟩
    · exact .inl hsame
    · exact .inr ⟨d, mem_append_left _ hd, hun⟩

theorem Live.setSync (hk : s.calls[k]? = some c)
    (hpc : c.call.pc = .commit .session) (hy : y.Of cfg.sessionID cfg.owner (s.version cfg)) :
    Live cfg { s with calls := s.calls.set k ⟨c.call, some y⟩ } := by
  have hproc := hlive.tracks.proceeding c (mem_of_getElem? hk)
  have hholds : c.call.holds := by simp [SubCall.holds, hpc]
  have htracks := hlive.tracks.setSync hk (d := ⟨c.call, some y⟩) { hproc with sync := fun _ => hpc }
    rfl rfl hholds hholds rfl
  refine { hlive with tracks := htracks, syncs := ?_, stored := ?_ }
  · refine forall_mem_set hlive.syncs fun z hz => ?_
    cases hz
    exact hy
  · obtain ⟨stored, hstored, hchannels, hread⟩ := hlive.stored
    refine ⟨stored, hstored, ?_, hread⟩
    intro ch
    exact (hchannels ch).imp_right (unsynced_set hk (fun hun => ⟨hun, rfl⟩))

theorem Live.store {j : Option Nat} (hearly : s.phase.early)
    (hy : y.Of cfg.sessionID cfg.owner (s.version cfg)) (hharmless : Harmless cfg s j y)
    (htracks : Tracks cfg s.node calls s.acked)
    (hsyncs : ∀ c ∈ calls, ∀ y ∈ c.sync, y.Of cfg.sessionID cfg.owner (s.version cfg))
    (hcalls : ∀ (i : Nat) (d : OwnerCall), s.calls[i]? = some d → some i ≠ j → d ∈ calls) :
    Live cfg { s with
      directory := ⟨update s.directory.leases cfg.sessionID (some y.desired),
        update s.directory.snapshots cfg.sessionID (some y.snapshot)⟩
      calls := calls } := by
  have hstored := stored_of_harmless calls hharmless hearly hcalls
  refine { hlive with
    tracks := htracks
    syncs := hsyncs
    lease := ?_
    stored := ⟨y.snapshot, update_self _ _ _, hstored⟩ }
  refine ⟨y.desired, update_self _ _ _, fun _ => hy.desired, ?_⟩
  intro hlate
  cases hearly.symm.trans hlate

theorem Live.tracks_stored (hk : s.calls[k]? = some c) (hpc : c.call.pc = .commit .session) :
    Tracks cfg s.node (s.calls.set k ⟨c.call.goto (.commit .channel), none⟩) s.acked := by
  have hproc := hlive.tracks.proceeding c (mem_of_getElem? hk)
  have hholds : c.call.holds := by simp [SubCall.holds, hpc]
  have hexpects : expects c.call.op (.commit .channel) = expects c.call.op c.call.pc := by
    rw [hpc]
    cases c.call.op <;> rfl
  exact hlive.tracks.setSync hk { hproc with path := rfl, sync := fun hne => absurd rfl hne } rfl rfl
    rfl hholds hexpects

theorem Live.act {r : Node × SubCall} (hk : s.calls[k]? = some c)
    (hat : ¬ (c.call.atSync ∧ s.node.clusterEnabled))
    (hblocked : ¬ Calls.blocked ⟨s.node, s.calls.map OwnerCall.call⟩ c.call)
    (hr : c.call.step s.node ok = some r) : failing r.2 ∨ Live cfg { s with
      node := r.1
      calls := s.calls.set k ⟨r.2, none⟩
      acked := acknowledge s.acked r.2 } := by
  have hsync : c.call.atSync = false := by
    cases hc : c.call.atSync with
    | false => rfl
    | true => exact absurd ⟨hc, hlive.tracks.enabled⟩ hat
  rcases hlive.tracks.step hk hsync hblocked hr with hfailing | ⟨htracks, htracked, hun, hsession⟩
  · exact .inl hfailing
  right
  have hversion : State.version cfg { s with
      node := r.1
      calls := s.calls.set k ⟨r.2, none⟩
      acked := acknowledge s.acked r.2 } = s.version cfg := by
    unfold State.version
    rw [hsession]
    rfl
  refine ⟨htracks, hlive.unfenced, hlive.going, hversion ▸ forall_mem_set hlive.syncs nofun,
    hversion ▸ hlive.refreshes, hversion ▸ hlive.lease, hversion ▸ hlive.seen, ?_, hlive.quiet⟩
  obtain ⟨stored, hstored, hchannels, hread⟩ := hlive.stored
  refine ⟨stored, hstored, ?_, hread⟩
  intro ch
  rcases htracked ch with hsame | hb
  · rw [hsame]
    exact (hchannels ch).imp_right (unsynced_set hk hun)
  · exact .inr ⟨⟨r.2, none⟩, Locks.mem_set_self hk, hb⟩

theorem void_of_failing {e : OwnerCall} (hk : calls[k]? = some c) (he : failing e.call)
    (hfenced : s'.fenced = s.fenced) (hcalls : s'.calls = calls.set k e) : Void s' := by
  right
  rw [hfenced, hcalls]
  exact ⟨hlive.unfenced.2, e, Locks.mem_set_self hk, he⟩

theorem Live.beginSync :
    (s.node.beginSync cfg.owner cfg.session).Of cfg.sessionID cfg.owner (s.version cfg) := by
  have hbegin : (s.node.beginSync cfg.owner cfg.session).Of (s.node.sessionID cfg.session)
      cfg.owner (s.version cfg) := beginSync_of
  rw [hlive.tracks.sessionID] at hbegin
  exact hbegin

theorem Live.call (hnamed : cfg.sessionID ≠ "") (hdistinct : cfg.owner ≠ cfg.claimant)
    (horder : InOrder cfg s (.call k ok))
    (h : callStep cfg s k ok = some s') : Live cfg s' ∨ Void s' := by
  obtain ⟨c, hk, ⟨y, ⟨d, y'⟩, hsync, hy, rfl⟩ | ⟨hnone, hat, rfl⟩ |
    ⟨hnone, hat, hblocked, r, hr, rfl⟩⟩ :=
    OwnerCall.step_cases h
  · have hc := mem_of_getElem? hk
    have hpc := (hlive.tracks.proceeding c hc).sync (by simp [hsync])
    have hyof := hlive.syncs c hc y hsync
    have hsynced : failing (c.call.synced false) := by simp [SubCall.synced, hpc]; rfl
    obtain ⟨lease, hlease, hheld, hlost⟩ := hlive.lease
    cases hearly : s.phase.early with
    | false =>
      have howner : lease.owner ≠ cfg.owner := by
        rw [hlost hearly]
        exact hdistinct.symm
      obtain ⟨-, -, hpc'⟩ := Sync.step_of_lost hyof hlease howner hy
      right
      refine void_of_failing hlive hk ?_ rfl rfl
      rcases hpc' with hpc' | hpc' <;> simp only [OwnerCall.afterSync, hpc'] <;> exact hsynced
    | true =>
      obtain ⟨hyof', hnotFenced, ⟨rfl, hnotOk⟩ | ⟨⟨current, hswap⟩, hpc', rfl⟩⟩ :=
        Sync.step_of_held hyof hnamed hlease (hheld hearly) hy
      · cases hpc' : y'.pc with
        | returned result =>
          right
          refine void_of_failing hlive hk ?_ rfl rfl
          cases result with
          | ok => exact absurd hpc' hnotOk
          | fenced => exact absurd hpc' hnotFenced
          | failed =>
            simp only [OwnerCall.afterSync, hpc']
            exact hsynced
        | get | swap current =>
          simp only [OwnerCall.afterSync, hpc']
          exact .inl (hlive.setSync hk hpc hyof')
      · have hharmless := horder c hk y hsync (by simp [Sync.stores, hswap])
        have hgoto : c.call.synced true = c.call.goto (.commit .channel) := by
          simp [SubCall.synced, hpc]
        simp only [OwnerCall.afterSync, hpc', decide_true, hgoto]
        exact .inl (hlive.store hearly hyof hharmless (hlive.tracks_stored hk hpc)
          (forall_mem_set hlive.syncs nofun)
          (fun i d hi hik => Locks.mem_set_of_ne hi (fun he => hik (he ▸ rfl))))
  · have hproc := hlive.tracks.proceeding c (mem_of_getElem? hk)
    exact .inl (hlive.setSync hk (session_of_atSync hproc.path hat) hlive.beginSync)
  · rcases hlive.act hk hat hblocked hr with hfailing | hlive'
    · exact .inr (void_of_failing hlive hk hfailing rfl rfl)
    · exact .inl hlive'

theorem Live.refresh :
    Live cfg { s with refreshes := s.refreshes ++ [s.node.beginSync cfg.owner cfg.session] } := by
  refine { hlive with refreshes := ?_, quiet := ?_ }
  · exact forall_mem_snoc hlive.refreshes hlive.beginSync
  · intro hearly
    obtain ⟨hcommand, hfenced⟩ := hlive.quiet hearly
    exact ⟨hcommand, forall_mem_snoc hfenced nofun⟩

theorem Live.setRefresh (hy : y.Of cfg.sessionID cfg.owner (s.version cfg))
    (hfenced : s.phase.early → y.pc ≠ .returned .fenced) :
    Live cfg { s with refreshes := s.refreshes.set k y } := by
  refine { hlive with refreshes := ?_, quiet := ?_ }
  · exact forall_mem_set hlive.refreshes hy
  · intro hearly
    obtain ⟨hcommand, hold⟩ := hlive.quiet hearly
    exact ⟨hcommand, forall_mem_set hold (hfenced hearly)⟩

theorem Live.sync (hnamed : cfg.sessionID ≠ "") (hdistinct : cfg.owner ≠ cfg.claimant)
    (horder : InOrder cfg s (.sync k ok)) (h : syncStep cfg s k ok = some s') : Live cfg s' := by
  obtain ⟨y, ⟨d, y'⟩, hk, hy, rfl⟩ := Option.bind_map_eq_some h
  have hyof := hlive.refreshes y (mem_of_getElem? hk)
  obtain ⟨lease, hlease, hheld, hlost⟩ := hlive.lease
  cases hearly : s.phase.early with
  | false =>
    have howner : lease.owner ≠ cfg.owner := by
      rw [hlost hearly]
      exact hdistinct.symm
    obtain ⟨rfl, hyof', -⟩ := Sync.step_of_lost hyof hlease howner hy
    refine hlive.setRefresh hyof' ?_
    intro he
    cases hearly.symm.trans he
  | true =>
    obtain ⟨hyof', hnotFenced, ⟨rfl, -⟩ | ⟨⟨current, hswap⟩, -, rfl⟩⟩ :=
      Sync.step_of_held hyof hnamed hlease (hheld hearly) hy
    · exact hlive.setRefresh hyof' (fun _ => hnotFenced)
    · have hharmless := horder y hk (by simp [Sync.stores, hswap])
      have hstored := hlive.store hearly hyof hharmless hlive.tracks hlive.syncs
        (fun i d hi _ => mem_of_getElem? hi)
      exact hstored.setRefresh hyof' (fun _ => hnotFenced)

theorem Live.setCommand (hlate : s.phase.early = false) (command : Command) :
    Live cfg { s with command := command } := by
  refine { hlive with quiet := ?_ }
  intro hearly
  cases hlate.symm.trans hearly

theorem Live.setPhase {d : Directory} {command : Command} {phase : Phase}
    (hgoing : phase.abandoned = false) (hsnapshots : d.snapshots = s.directory.snapshots)
    (hlease : ∃ lease, d.leases cfg.sessionID = some lease ∧
      (phase.early → lease.HeldBy cfg.sessionID cfg.owner (s.version cfg)) ∧
      (phase.early = false → lease.owner = cfg.claimant))
    (hseen : ∀ lease ∈ phase.lease, lease.HeldBy cfg.sessionID cfg.owner (s.version cfg))
    (hread : ∀ read ∈ phase.snapshot,
      ∃ stored, s.directory.snapshots cfg.sessionID = some stored ∧
        read.channels = stored.channels)
    (hquiet : phase.early → s.phase.early ∧ command = s.command) :
    Live cfg { s with directory := d, command := command, phase := phase } := by
  refine ⟨hlive.tracks, hlive.unfenced, hgoing, hlive.syncs, hlive.refreshes, hlease, hseen, ?_, ?_⟩
  · obtain ⟨stored, hstored, hchannels, -⟩ := hlive.stored
    refine ⟨stored, by rw [← hstored, hsnapshots], hchannels, ?_⟩
    intro read hr
    obtain ⟨stored', hstored', hchannels'⟩ := hread read hr
    rw [hstored] at hstored'
    cases hstored'
    exact hchannels'
  · intro hearly
    obtain ⟨hold, hcommand⟩ := hquiet hearly
    rw [show (State.mk _ _ _ _ _ command _ _ _).command = command from rfl, hcommand]
    exact hlive.quiet hold

theorem Live.claimsEarly (hearly : s.phase.early)
    (h : Claims cfg s.directory s.command a s.phase d command phase) :
    phase.abandoned ∨ Live cfg { s with directory := d, command := command, phase := phase } := by
  obtain ⟨stored, hstored, -, hread⟩ := hlive.stored
  obtain ⟨lease, hlease, hheld, -⟩ := hlive.lease
  have hheld := hheld hearly
  have hseen := hlive.seen
  generalize hp : s.phase = before at h hread hseen
  cases h with
  | stops _ lost => rcases lost with rfl | rfl <;> exact .inl rfl
  | leased found =>
    rw [hlease] at found
    cases found
    right
    refine hlive.setPhase rfl rfl ⟨lease, hlease, fun _ => hheld, nofun⟩ ?_
      nofun (fun _ => ⟨hearly, rfl⟩)
    intro l hl
    cases hl
    exact hheld
  | read found =>
    right
    refine hlive.setPhase rfl rfl ⟨lease, hlease, fun _ => hheld, nofun⟩ hseen ?_
      (fun _ => ⟨hearly, rfl⟩)
    intro r hr
    cases hr
    exact ⟨_, found, rfl⟩
  | @claimed _ read snapshot _ swapped =>
    have hsid : read.sessionID = cfg.sessionID := (hseen read rfl).sessionID
    obtain rfl := compareAndSwapSessionLease_eq_some swapped
    have hclaimed : update s.directory.leases (desiredLease cfg read).sessionID
        (some (desiredLease cfg read)) cfg.sessionID = some (desiredLease cfg read) := by
      rw [show (desiredLease cfg read).sessionID = cfg.sessionID from hsid]
      exact update_self _ _ _
    have hkept : ∀ r ∈ some snapshot, ∃ stored,
        s.directory.snapshots cfg.sessionID = some stored ∧ r.channels = stored.channels :=
      fun r hr => ⟨stored, hstored, hread r hr⟩
    right
    split_ifs <;> exact hlive.setPhase rfl rfl ⟨_, hclaimed, nofun, fun _ => rfl⟩
      nofun hkept nofun
  | _ =>
    rw [hp] at hearly
    cases hearly

theorem Live.claimant (ha : a.ofClaimant) (h : step cfg s a = some s') :
    Live cfg s' ∨ Void s' := by
  obtain ⟨d, command, phase, rfl, hclaims⟩ := claimant_cases ha h
  by_cases habandoned : phase.abandoned
  · exact .inr (.inl habandoned)
  left
  cases hearly : s.phase.early with
  | true => exact (hlive.claimsEarly hearly hclaims).resolve_left habandoned
  | false =>
    obtain ⟨read, hread⟩ := snapshot_of_late hearly hlive.going
    obtain ⟨stored, hstored, -, hsame⟩ := hlive.stored
    obtain ⟨lease, hlease, -, hlost⟩ := hlive.lease
    obtain ⟨hlate, hread', rfl, hnone⟩ := (hclaims.late hearly hread).resolve_left habandoned
    refine hlive.setPhase (by simpa using habandoned) rfl
      ⟨lease, hlease, fun he => ?_, fun _ => hlost hearly⟩ ?_ ?_ (fun he => ?_)
    · cases hlate.symm.trans he
    · rw [hnone]
      intro l hl
      cases hl
    · rw [hread']
      intro r hr
      cases hr
      exact ⟨stored, hstored, hsame read hread⟩
    · cases hlate.symm.trans he

variable (hcompleted : ∀ c ∈ s.calls, c.call.pc = .returned .ok)
include hcompleted

theorem Live.acked_eq {read : SessionSnapshot} (hread : s.phase.snapshot = some read) :
    s.acked = read.channels := by
  obtain ⟨stored, -, hchannels, hstored⟩ := hlive.stored
  rw [hstored read hread]
  ext ch
  have hfree : ∀ c ∈ s.calls, ¬ holdsLock c ch := by
    intro c hc hlock
    have hholds := hlock.1
    unfold SubCall.holds at hholds
    rw [hcompleted c hc] at hholds
    cases hholds
  obtain ⟨htracked, hacked⟩ := hlive.tracks.free ch hfree
  rw [hacked, ← htracked]
  rcases hchannels ch with hsame | ⟨c, hc, hun, -⟩
  · exact hsame.symm
  · unfold Resume.unsynced at hun
    rw [hcompleted c hc] at hun
    cases hun

theorem Live.beginFence (hlate : s.phase.early = false) {c : SessionRef} {forCommand : Bool}
    (h : beginFence s c channels forCommand = some s') : Live cfg s' ∨ Matched s' := by
  rcases beginFence_cases h with ⟨-, rfl⟩ | ⟨-, -, -, rfl⟩
  · exact .inl (hlive.setCommand hlate _)
  · right
    obtain ⟨read, hread⟩ := snapshot_of_late hlate hlive.going
    refine ⟨hlate, read, hread, ?_⟩
    rw [← hlive.acked_eq hcompleted hread]
    simp [hlive.unfenced.2]

theorem Live.handle (h : Resume.handle cfg s channels = some s') : Live cfg s' ∨ Matched s' := by
  obtain ⟨version, hpending, hcases⟩ := handle_cases h
  have hlate : s.phase.early = false := by
    by_contra hearly
    rw [(hlive.quiet (by simpa using hearly)).1] at hpending
    cases hpending
  rcases hcases with ⟨succeeded, rfl⟩ | ⟨c, -, hbegin⟩
  · exact .inl (hlive.setCommand hlate _)
  · exact hlive.beginFence hcompleted hlate hbegin

theorem Live.selfFence (h : step cfg s (.selfFence k channels) = some s') :
    Live cfg s' ∨ Matched s' := by
  obtain ⟨y, hk, hpc, hbegin⟩ := selfFence_cases h
  have hlate : s.phase.early = false := by
    by_contra hearly
    exact (hlive.quiet (by simpa using hearly)).2 y (mem_of_getElem? hk) hpc
  have herased : Live cfg { s with refreshes := s.refreshes.eraseIdx k } := by
    refine { hlive with refreshes := ?_, quiet := ?_ }
    · intro z hz
      exact hlive.refreshes z (mem_of_mem_eraseIdx hz)
    · intro hearly
      cases hlate.symm.trans hearly
  exact herased.beginFence hcompleted hlate hbegin

end

theorem Live.step (hnamed : cfg.sessionID ≠ "") (hdistinct : cfg.owner ≠ cfg.claimant)
    (hlive : Live cfg s) (hcompleted : Completed s a) (horder : InOrder cfg s a)
    (h : step cfg s a = some s') : Accounted cfg s' := by
  cases ha : a.ofClaimant with
  | true => exact (hlive.claimant ha h).imp id .inr
  | false =>
    cases a with
    | add ch e =>
      cases h
      exact .inl (hlive.spawn ⟨rfl, fun _ => rfl, .inl rfl, rfl, fun hne => absurd rfl hne⟩ rfl)
    | remove ch =>
      cases h
      exact .inl (hlive.spawn ⟨rfl, nofun, .inr rfl, rfl, fun hne => absurd rfl hne⟩ rfl)
    | call k ok => exact (hlive.call hnamed hdistinct horder h).imp id .inr
    | refresh =>
      simp only [Resume.step] at h
      split_ifs at h
      cases h
      exact .inl hlive.refresh
    | sync k ok => exact .inl (hlive.sync hnamed hdistinct horder h)
    | selfFence k channels =>
      exact (hlive.selfFence (hcompleted hlive.unfenced.2) h).imp id .inl
    | handle channels =>
      exact (hlive.handle (hcompleted hlive.unfenced.2) h).imp id .inl
    | fence ok adjusted =>
      obtain ⟨f, forCommand, hfence, -⟩ := fenceStep_cases h
      rw [hlive.unfenced.1] at hfence
      cases hfence
    | _ => cases ha

theorem Accounted.step (hnamed : cfg.sessionID ≠ "") (hdistinct : cfg.owner ≠ cfg.claimant)
    (haccounted : Accounted cfg s) (hcompleted : Completed s a) (horder : InOrder cfg s a)
    (h : step cfg s a = some s') : Accounted cfg s' := by
  rcases haccounted with hlive | hmatched | hvoid
  · exact hlive.step hnamed hdistinct hcompleted horder h
  · exact .inr (hmatched.step h)
  · exact .inr (.inr (void_step hvoid hcompleted h))

end Storing

section Runs
variable {s s' : State} {as : List Action}

/-- The owner has acknowledged, tracks and has stored the channels the session is subscribed to
in its hub. -/
structure Settled (cfg : Config) (s : State) : Prop where
  patterned : s.node.hub.Patterned cfg.sessionID
  tracked : ∀ ch, ch ∈ s.node.tracked cfg.session ↔
    s.node.lookupSubscriber ch cfg.session ≠ none
  acked : s.acked = s.node.tracked cfg.session
  stored : ∃ stored, s.directory.snapshots cfg.sessionID = some stored ∧
    stored.channels = s.node.tracked cfg.session

theorem live_start (hserved : Served cfg s) (hsettled : Settled cfg s) : Live cfg s := by
  obtain ⟨hcalls, hrefreshes, hfence, hcommand, hphase, hfenced⟩ := hserved.idle
  have hcell : ∀ ch, (cell s.node cfg.session ch).tracked ↔
      (cell s.node cfg.session ch).subscribed := by
    intro ch
    rw [show (cell s.node cfg.session ch).tracked ↔ ch ∈ s.node.tracked cfg.session from Iff.rfl,
      hsettled.tracked ch]
    simp [cell, Option.isSome_iff_ne_none]
  have htracks : Tracks cfg s.node s.calls s.acked := by
    refine ⟨hserved.enabled, hserved.sessionID, ?_, ?_, ?_, ?_, ?_⟩
    · rw [hserved.sessionID]
      exact hsettled.patterned
    · simp [hcalls]
    · rw [hcalls]
      exact Locks.exclusive_nil
    · simp [hcalls]
    · intro ch _
      rw [hsettled.acked]
      exact ⟨hcell ch, hcell ch⟩
  obtain ⟨lease, hlease, hsid, howner, hversion⟩ := hserved.lease
  obtain ⟨stored, hstored, hchannels⟩ := hsettled.stored
  refine ⟨htracks, ⟨hfence, hfenced⟩, by rw [hphase]; rfl, by simp [hcalls], by simp [hrefreshes],
    ⟨lease, hlease, fun _ => ⟨hsid, howner, hversion⟩, ?_⟩, ?_, ⟨stored, hstored, ?_, ?_⟩, ?_⟩
  · rw [hphase]
    intro h
    cases h
  · rw [hphase]
    intro _ h
    cases h
  · intro ch
    rw [hchannels]
    exact .inl Iff.rfl
  · rw [hphase]
    intro _ h
    cases h
  · intro _
    exact ⟨hcommand, by simp [hrefreshes]⟩

/-- In every run in which stores undo no stored change and none falls between the read and the
claim, a successful resume restores what the owner had acknowledged when it was fenced. -/
theorem resume_lossless (hserved : Served cfg s) (hsettled : Settled cfg s)
    (hrun : run cfg s as = some s') (hcompleted : Transition.Along (step cfg) Completed s as)
    (horder : Transition.Along (step cfg) (InOrder cfg) s as) : Lossless s' := by
  have haccounted : Accounted cfg s' :=
    Transition.invariant_along (P := Accounted cfg) (.inl (live_start hserved hsettled))
      (fun _ _ _ hacc hok h => hacc.step hserved.named hserved.distinct hok.1 hok.2 h)
      hrun (Transition.along_and (step cfg) hcompleted horder)
  exact haccounted.lossless

def nodes : Config where
  owner := ⟨"a", "7"⟩
  claimant := ⟨"b", "9"⟩
  sessionID := "s1"
  session := 0
  authUser := ""
  authNs := ""

def serving : State where
  node := (Node.new true fun _ => { Session.newClient "s1" ⟨0, 0, .protobuf⟩ with
    state := .attached }).setHub { Hub.empty with sessions := Finmap.singleton "s1" 0 }
  calls := []
  refreshes := []
  fence := none
  directory := {
    leases := fun sid =>
      if sid = "s1" then some ⟨"s1", ⟨"a", "7"⟩, "", "", "", 1, true⟩ else none
    snapshots := fun sid => if sid = "s1" then some ⟨"", "", "", ∅, fun _ => 0⟩ else none }
  command := .none
  phase := .getLease
  acked := ∅
  fenced := none

def subscribeRoom : List Action :=
  .add "room" false :: List.replicate 8 (.call 0 true)

theorem served_serving : Served nodes serving :=
  ⟨by decide, by decide, rfl, rfl, by decide, rfl,
    ⟨_, rfl, rfl, rfl, rfl⟩, rfl, rfl, rfl, rfl, rfl, rfl⟩

theorem settled_serving : Settled nodes serving := by
  refine ⟨?_, ?_, rfl, ⟨_, rfl, rfl⟩⟩
  · nofun
  · intro ch
    have hnone : serving.node.lookupSubscriber ch nodes.session = none :=
      Hub.lookupSubscriber_empty ch "s1"
    rw [hnone]
    simp [serving, Node.tracked, Node.new, Session.newClient]

def resumeSubscribed : List Action :=
  subscribeRoom ++
    [.resume true, .resume true, .resume true, .resume true, .handle ["room"], .fence true true,
      .fence true true, .reply]

theorem resume_lossless_subscribed :
    ∃ s snapshot, run nodes serving resumeSubscribed = some s ∧
      s.phase = .returned (.resumed snapshot) ∧ s.fenced = some {"room"} ∧ Lossless s :=
  ⟨_, _, rfl, rfl, by decide, resume_lossless served_serving settled_serving
    (rfl : run nodes serving resumeSubscribed = _) (by decide) (by decide)⟩

/-- The subscription is stored and acknowledged after the snapshot has been read; the claim
succeeds all the same. -/
theorem resume_loses_subscription :
    Served nodes serving ∧ Settled nodes serving ∧
      ∃ as s snapshot, run nodes serving as = some s ∧
        Transition.Along (step nodes) Completed serving as ∧
        s.phase = .returned (.resumed snapshot) ∧ snapshot.channels = ∅ ∧
        s.fenced = some {"room"} ∧ ¬ Lossless s := by
  refine ⟨served_serving, settled_serving, [.resume true, .resume true] ++ subscribeRoom ++
    [.resume true, .resume true, .handle ["room"], .fence true true, .fence true true, .reply],
    _, _, rfl, by decide, rfl, rfl, by decide, ?_⟩
  intro hlossless
  exact absurd (hlossless _ _ rfl rfl) (by decide)

end Runs

end MessageLoop.Resume
