import MessageLoop.Cluster.ResumeLossless

/-!
When a resume that fails leaves the owner as it was.

Until the resume claims the lease it has changed nothing. From then on it must not be seen by a
lease refresh of the owner, a `Fence` that fails must undo itself, and the claim must be taken back,
but not before the takeover command has been refused.
-/

namespace MessageLoop.Resume

open Topics List Function

section Property

def Action.ofSubscription : Action → Bool
  | .add _ _ | .remove _ | .call _ _ => true
  | _ => false

/-- The session is open and registered on the owner, with the subscriptions it had in `before`. -/
structure Intact (cfg : Config) (before n : Node) : Prop where
  opened : (n.sessions cfg.session).state ≠ .closed
  registered : n.hub.lookupSession cfg.sessionID = some cfg.session
  subscriptions : n.entry cfg.session = before.entry cfg.session

def Handled (s : State) : Prop :=
  (s.command = .none ∨ ∃ succeeded, s.command = .replied succeeded) ∧ s.fence = none

/-- A resume that has returned an error leaves the lease with the owner, and the session there. -/
def NoOp (cfg : Config) (before s : State) : Prop :=
  s.phase = .returned .error → Handled s →
    (∃ lease, s.directory.leases cfg.sessionID = some lease ∧ lease.owner = cfg.owner) ∧
      Intact cfg before.node s.node

/-- A `Fence` that fails is undone completely: the broker takes the subscriptions back, and there
is an attachment to serve. One that has removed everything does not fail any more. -/
def Undoes (f : Fencing) (ok : Bool) : Prop :=
  if f.restoring then (if f.removed = [] then f.attachment ≠ none else ok = true)
  else f.todo = [] → f.failed = false → f.attachment = none ∨ ok = true

instance (f : Fencing) (ok : Bool) : Decidable (Undoes f ok) := by
  unfold Undoes
  infer_instance

def Phase.rollingBack : Phase → Bool
  | .rollback _ _ => true
  | _ => false

/-- The owner does not sync while the resume holds the lease. The resume takes a takeover for
failed only when its command was never sent or has been refused, and it gets the lease back. -/
def Contained (cfg : Config) (s : State) : Action → Prop
  | .sync _ ok => ok = true →
      ∀ lease ∈ s.directory.leases cfg.sessionID, lease.owner = cfg.owner
  | .nodeLease alive => alive ≠ some false → s.command = .none ∨ s.command = .replied false
  | .resume ok => s.phase.rollingBack → ok = true
  | .fence ok _ => ∀ p ∈ s.fence, Undoes p.1 ok
  | _ => True

instance (cfg : Config) (s : State) : (a : Action) → Decidable (Contained cfg s a)
  | .sync .. => inferInstanceAs (Decidable (_ → ∀ lease ∈ s.directory.leases _, _))
  | .nodeLease _ => inferInstanceAs (Decidable (_ → _ ∨ _))
  | .resume _ => inferInstanceAs (Decidable (_ → _))
  | .fence .. => inferInstanceAs (Decidable (∀ p ∈ s.fence, Undoes p.1 _))
  | .add .. | .remove .. | .call .. | .refresh | .selfFence .. | .handle .. | .reply | .giveUp =>
    isTrue trivial

end Property

variable {cfg : Config} {before n t : Node} {ok adjusted : Bool} {s : State} {a : Action}
variable {d d' : Directory} {command command' : Command} {phase phase' : Phase}

section Fences

structure Identified (cfg : Config) (before n : Node) : Prop where
  sessionID : n.sessionID cfg.session = cfg.sessionID
  leaseVersion : (n.sessions cfg.session).leaseVersion = (before.sessions cfg.session).leaseVersion

/-- A fence in progress: the session is closed and lacks the subscriptions that the fence
remembers to have removed, and no others. -/
structure Partway (cfg : Config) (before n : Node) (f : Fencing) : Prop where
  session : f.session = cfg.session
  closed : (n.sessions cfg.session).state = .closed
  registered : n.hub.lookupSession cfg.sessionID = some cfg.session
  todo : ∀ ch ∈ f.todo, ch ∈ before.tracked cfg.session
  distinct : (f.removed.map Prod.fst).Nodup
  removed : ∀ p ∈ f.removed, before.entry cfg.session p.1 = (some p.2, true)
  entries : ∀ ch, n.entry cfg.session ch =
    if ch ∈ f.removed.map Prod.fst then (none, false) else before.entry cfg.session ch

variable {f : Fencing} {ch : String}
variable {v : Option Bool × Bool}

theorem Identified.altered (h : Identified cfg before n)
    (halt : n.Altered cfg.session ch t v) : Identified cfg before t := by
  refine ⟨?_, ?_⟩
  · unfold Node.sessionID
    rw [halt.session]
    exact h.sessionID
  · rw [halt.session]
    exact h.leaseVersion

theorem lookup_altered (halt : n.Altered cfg.session ch t v) :
    t.hub.lookupSession cfg.sessionID = n.hub.lookupSession cfg.sessionID := by
  unfold Hub.lookupSession
  rw [halt.registry]

theorem state_altered (halt : n.Altered cfg.session ch t v) :
    (t.sessions cfg.session).state = (n.sessions cfg.session).state := by
  rw [halt.session]

theorem entry_true_iff : (n.entry cfg.session ch).2 = true ↔ ch ∈ n.tracked cfg.session := by
  simp [Node.entry]

section
variable (h : Partway cfg before n f)
include h

theorem Partway.remove {rest : List String} (htodo : f.todo = ch :: rest)
    (hfound : (n.lookupSubscriber ch cfg.session).isSome)
    (halt : n.Altered cfg.session ch t (none, false)) {failed : Bool} :
    Partway cfg before t { f with
      todo := rest
      removed := f.removed ++
        [(ch, ((n.lookupSubscriber ch cfg.session).map Subscriber.ephemeral).getD false)]
      failed := failed } := by
  obtain ⟨sub, hsub⟩ := Option.isSome_iff_exists.mp hfound
  have hpresent : ch ∉ f.removed.map Prod.fst := by
    intro hmem
    have hentry := h.entries ch
    rw [if_pos hmem] at hentry
    simp [Node.entry, hsub] at hentry
  have hbefore : before.entry cfg.session ch = (some sub.ephemeral, true) := by
    have hentry := h.entries ch
    rw [if_neg hpresent] at hentry
    have htracked : ch ∈ before.tracked cfg.session := h.todo ch (by simp [htodo])
    apply Prod.ext
    · rw [← hentry]
      simp [Node.entry, hsub]
    · exact entry_true_iff.mpr htracked
  refine ⟨h.session, ?_, ?_, ?_, ?_, ?_, ?_⟩
  · rw [state_altered halt]
    exact h.closed
  · rw [lookup_altered halt]
    exact h.registered
  · intro x hx
    exact h.todo x (by rw [htodo]; exact mem_cons_of_mem ch hx)
  · rw [map_append, nodup_append]
    refine ⟨h.distinct, nodup_singleton ch, ?_⟩
    intro x hx y hy hxy
    rw [map_singleton, mem_singleton] at hy
    rw [hxy, hy] at hx
    exact hpresent hx
  · refine forall_mem_snoc h.removed ?_
    simpa [hsub] using hbefore
  · intro x
    rw [halt.entries]
    by_cases hx : x = ch
    · subst hx
      simp
    · rw [update_of_ne hx, h.entries x]
      simp [hx]

theorem Partway.restore {ephemeral : Bool} {rest : List (String × Bool)}
    (hremoved : f.removed = (ch, ephemeral) :: rest)
    (halt : n.Altered cfg.session ch t (some ephemeral, true)) :
    Partway cfg before t { f with removed := rest } := by
  have hdistinct := h.distinct
  rw [hremoved, map_cons, nodup_cons] at hdistinct
  refine ⟨h.session, ?_, ?_, h.todo, hdistinct.2, ?_, ?_⟩
  · rw [state_altered halt]
    exact h.closed
  · rw [lookup_altered halt]
    exact h.registered
  · intro p hp
    exact h.removed p (by rw [hremoved]; exact mem_cons_of_mem _ hp)
  · intro x
    rw [halt.entries]
    by_cases hx : x = ch
    · subst hx
      rw [update_self, if_neg hdistinct.1]
      exact (h.removed (x, ephemeral) (by simp [hremoved])).symm
    · rw [update_of_ne hx, h.entries x]
      simp [hremoved, hx]

theorem Partway.skip {rest : List String} (htodo : f.todo = ch :: rest)
    {failed : Bool} : Partway cfg before n { f with todo := rest, failed := failed } :=
  { h with todo := fun x hx => h.todo x (by rw [htodo]; exact mem_cons_of_mem ch hx) }

theorem Partway.reopen (hremoved : f.removed = []) (hattachment : f.attachment ≠ none) :
    Intact cfg before
      (n.setSession cfg.session ((n.sessions cfg.session).reopen f.attachment)) := by
  refine ⟨?_, h.registered, ?_⟩
  · simp [Session.reopen, h.closed, hattachment]
  · rw [Node.entry_setSession Session.session_reopen Session.subscribedChannels_reopen]
    funext x
    have hentry := h.entries x
    rwa [hremoved, map_nil, if_neg not_mem_nil] at hentry

end

theorem Identified.setSession (h : Identified cfg before n) {r : Session}
    (hid : r.session = (n.sessions cfg.session).session)
    (hversion : r.leaseVersion = (n.sessions cfg.session).leaseVersion) :
    Identified cfg before (n.setSession cfg.session r) := by
  refine ⟨?_, ?_⟩
  · rw [← h.sessionID]
    simpa [Node.sessionID] using hid
  · rw [← h.leaseVersion]
    simpa using hversion

def Advanced (cfg : Config) (before n : Node) : Fencing ⊕ Bool → Prop
  | .inl f => Partway cfg before n f
  | .inr succeeded => succeeded = false → Intact cfg before n

theorem Partway.step (hvalid : ∀ ch, (before.entry cfg.session ch).1.isSome → validTopic ch)
    (hid : Identified cfg before n) (h : Partway cfg before n f) (hundoes : Undoes f ok)
    {result : Fencing ⊕ Bool} (hstep : f.step n ok adjusted = (t, result)) :
    Identified cfg before t ∧ Advanced cfg before t result := by
  obtain ⟨session, attachment, todo, removed, failed, restoring⟩ := f
  obtain rfl : session = cfg.session := h.session
  cases restoring with
  | true =>
    cases removed with
    | nil =>
      cases hstep
      exact ⟨hid.setSession Session.session_reopen Session.leaseVersion_reopen,
        fun _ => h.reopen rfl hundoes⟩
    | cons p rest =>
      obtain ⟨ch, ephemeral⟩ := p
      obtain rfl : ok = true := hundoes
      cases hstep
      have hbefore := h.removed (ch, ephemeral) mem_cons_self
      have hnone : n.lookupSubscriber ch cfg.session = none := by
        have hentry := h.entries ch
        rw [if_pos (by simp)] at hentry
        simpa [Node.entry] using congrArg Prod.fst hentry
      have hvalid : validTopic ch := hvalid ch (by rw [hbefore]; rfl)
      have halt := (Node.altered_restoreLocalSubscription (newSubscriber cfg.session ephemeral)
        hnone hvalid).adjust ch 1 adjusted
      exact ⟨hid.altered halt, h.restore rfl halt⟩
  | false =>
    cases todo with
    | nil =>
      cases failed with
      | true =>
        cases hstep
        exact ⟨hid, { h with }⟩
      | false =>
        cases hstep
        refine ⟨⟨hid.sessionID, hid.leaseVersion⟩, ?_⟩
        intro hresult
        rcases hundoes rfl rfl with hnone | hok
        · have hnone : attachment = none := hnone
          simp [hnone] at hresult
        · simp [hok] at hresult
    | cons ch rest =>
      simp only [Fencing.step, Bool.false_eq_true, if_false] at hstep
      rcases hremove : n.removeLocalSubscriptionOnly ch cfg.session ok with ⟨found, fails, u⟩
      rw [hremove] at hstep
      rcases Node.removeLocalSubscriptionOnly_cases hremove with ⟨rfl, rfl⟩ | ⟨rfl, hfound, halt⟩
      · cases hstep
        exact ⟨hid, h.skip rfl⟩
      · cases hstep
        have halt := halt.adjust ch (-1) adjusted
        exact ⟨hid.altered halt, h.remove rfl hfound halt⟩

end Fences

section Leasing

def Phase.claimed : Phase → Option (SessionLease × SessionLease)
  | .request lease desired _ | .wait lease desired _ | .getNodeLease lease desired _
  | .rollback lease desired => some (lease, desired)
  | _ => none

def Phase.undecided : Phase → Bool
  | .wait _ _ _ | .getNodeLease _ _ _ => true
  | _ => false

def Phase.succeeded : Phase → Bool
  | .returned (.resumed _) => true
  | _ => false

/-- The lease is the owner's, or the resume has claimed it and knows what it was. -/
structure Leasing (cfg : Config) (version : Nat) (d : Directory) (phase : Phase) : Prop where
  held : phase.claimed = none → ∃ lease, d.leases cfg.sessionID = some lease ∧
    lease.HeldBy cfg.sessionID cfg.owner version
  claimed : ∀ p ∈ phase.claimed, d.leases cfg.sessionID = some p.2 ∧
    p.2 = desiredLease cfg p.1 ∧ p.1.HeldBy cfg.sessionID cfg.owner version
  seen : ∀ lease ∈ phase.lease, lease.HeldBy cfg.sessionID cfg.owner version

variable {version : Nat}
variable {lease desired : SessionLease} {snapshot : SessionSnapshot}

theorem unclaimed_of_early (h : phase.early) :
    phase.claimed = none ∧ phase.undecided = false ∧ phase.succeeded = false := by
  cases phase with
  | getLease | getSnapshot _ | claim _ _ => exact ⟨rfl, rfl, rfl⟩
  | _ => cases h

theorem Leasing.unclaimed (h : Leasing cfg version d phase) (hbefore : phase.claimed = none)
    (hafter : phase'.claimed = none)
    (hseen : ∀ lease ∈ phase'.lease, lease.HeldBy cfg.sessionID cfg.owner version) :
    Leasing cfg version d phase' := by
  refine ⟨fun _ => h.held hbefore, ?_, hseen⟩
  rw [hafter]
  exact nofun

theorem Leasing.kept (h : Leasing cfg version d phase)
    (hbefore : phase.claimed = some (lease, desired))
    (hafter : phase'.claimed = some (lease, desired)) (hseen : phase'.lease = none) :
    Leasing cfg version d phase' := by
  refine ⟨?_, ?_, ?_⟩
  · rw [hafter]
    exact nofun
  · rw [hafter, ← hbefore]
    exact h.claimed
  · rw [hseen]
    exact nofun

theorem Leasing.claim (h : Leasing cfg version d (.claim lease snapshot))
    (hcas : d.compareAndSwapSessionLease (some lease) (desiredLease cfg lease) = some d') :
    Leasing cfg version d' (.request lease (desiredLease cfg lease) snapshot) := by
  have hheld := h.seen lease rfl
  have hsid : (desiredLease cfg lease).sessionID = cfg.sessionID := hheld.sessionID
  refine ⟨nofun, ?_, nofun⟩
  intro p hp
  cases hp
  refine ⟨?_, rfl, hheld⟩
  rw [compareAndSwapSessionLease_eq_some hcas, hsid]
  exact update_self _ _ _

theorem Leasing.rollback (hnamed : cfg.sessionID ≠ "")
    (h : Leasing cfg version d (.rollback lease desired)) :
    Leasing cfg version ((d.compareAndSwapSessionLease (some desired) lease).getD d)
      (.returned .error) := by
  obtain ⟨hlease, -, hheld⟩ := h.claimed (lease, desired) rfl
  have hsid : lease.sessionID = cfg.sessionID := hheld.sessionID
  have hcas : d.compareAndSwapSessionLease (some desired) lease =
      some { d with leases := update d.leases cfg.sessionID (some lease) } := by
    simp [Directory.compareAndSwapSessionLease, hsid, hnamed, hlease, clusterSessionLeaseEqual]
  rw [hcas]
  exact ⟨fun _ => ⟨lease, update_self _ _ _, hheld⟩, (fun _ h => by cases h),
    fun _ h => by cases h⟩

theorem Leasing.claimant (hnamed : cfg.sessionID ≠ "") (h : Leasing cfg version s.directory s.phase)
    (hok : Contained cfg s a)
    (hclaims : Claims cfg s.directory s.command a s.phase d command phase) :
    phase.succeeded ∨ Leasing cfg version d phase := by
  obtain ⟨node, calls, refreshes, fence, before, command₀, phase₀, acked, fenced⟩ := s
  cases hclaims with
  | stops early lost =>
    right
    rcases lost with rfl | rfl <;>
      exact h.unclaimed (unclaimed_of_early early).1 rfl nofun
  | leased found =>
    obtain ⟨lease, hlease, hheld⟩ := h.held rfl
    cases hlease.symm.trans found
    refine .inr (h.unclaimed rfl rfl ?_)
    intro l hl
    cases hl
    exact hheld
  | read => exact .inr (h.unclaimed rfl rfl h.seen)
  | claimed swapped =>
    split_ifs
    · exact .inr (h.claim swapped)
    · exact .inl rfl
  | requested | unsent | gaveUp => exact .inr (h.kept rfl rfl rfl)
  | replied succeeded =>
    cases succeeded with
    | true => exact .inl rfl
    | false => exact .inr (h.kept rfl rfl rfl)
  | checked =>
    split_ifs
    · exact .inl rfl
    · exact .inr (h.kept rfl rfl rfl)
  | @rolledBack ok =>
    obtain rfl : ok = true := hok rfl
    exact .inr (h.rollback hnamed)

theorem answered_step (h : s.phase.undecided = false → s.command = .none ∨ s.command = .replied false)
    (hok : Contained cfg s a) (hclaims : Claims cfg s.directory s.command a s.phase d command phase)
    (hgoing : phase.succeeded = false) :
    phase.undecided = false → command = .none ∨ command = .replied false := by
  obtain ⟨node, calls, refreshes, fence, before, command₀, phase₀, acked, fenced⟩ := s
  cases hclaims with
  | stops early => exact fun _ => h (unclaimed_of_early early).2.1
  | leased | read | claimed | rolledBack => exact fun _ => h rfl
  | requested | unsent | gaveUp => exact nofun
  | replied succeeded =>
    cases succeeded with
    | true => cases hgoing
    | false => exact nofun
  | checked =>
    split_ifs at hgoing with halive
    · cases hgoing
    · exact fun _ => hok halive

theorem Claims.command_cases (h : Claims cfg d command a phase d' command' phase') :
    command' = command ∨ phase.undecided = false ∧ ∃ version, command' = .pending version := by
  cases h with
  | requested => exact .inr ⟨rfl, _, rfl⟩
  | _ => exact .inl rfl

theorem Claims.not_succeeded (h : Claims cfg d command a phase d' command' phase') :
    phase.succeeded = false := by
  cases h with
  | stops early => exact (unclaimed_of_early early).2.2
  | _ => rfl

end Leasing

section Owner

/-- What the owner is at: the session is untouched, a fence is in progress for the command, or the
command has succeeded. -/
inductive Owned (cfg : Config) (before : Node) (s : State) : Prop
  | untouched (fence : s.fence = none)
      (command : s.command ≠ .handling ∧ s.command ≠ .replied true)
      (intact : Intact cfg before s.node)
  | fencing (f : Fencing) (fence : s.fence = some (f, true)) (command : s.command = .handling)
      (partway : Partway cfg before s.node f)
  | taken (fence : s.fence = none) (command : s.command = .replied true)

structure Reversible (cfg : Config) (before : Node) (s : State) : Prop where
  calls : s.calls = []
  identified : Identified cfg before s.node
  refreshes : ∀ y ∈ s.refreshes, y.pc ≠ .returned .fenced ∧
    y.Of cfg.sessionID cfg.owner (before.sessions cfg.session).leaseVersion
  leasing : Leasing cfg (before.sessions cfg.session).leaseVersion s.directory s.phase
  answered : s.phase.undecided = false → s.command = .none ∨ s.command = .replied false
  owned : Owned cfg before s

variable {s₀ s' : State} {k : Nat}
variable {channels : List String}

theorem Owned.of_eq (h : Owned cfg before s) (hnode : s'.node = s.node)
    (hfence : s'.fence = s.fence) (hcommand : s'.command = s.command) : Owned cfg before s' := by
  cases h with
  | untouched fence command intact =>
    exact .untouched (hfence.trans fence) (hcommand ▸ command) (hnode ▸ intact)
  | fencing f fence command partway =>
    exact .fencing f (hfence.trans fence) (hcommand.trans command) (hnode ▸ partway)
  | taken fence command => exact .taken (hfence.trans fence) (hcommand.trans command)

theorem Owned.claimant (h : Owned cfg before s)
    (hanswered : s.phase.undecided = false → s.command = .none ∨ s.command = .replied false)
    (hclaims : Claims cfg s.directory s.command a s.phase d command phase) :
    Owned cfg before { s with directory := d, command := command, phase := phase } := by
  rcases hclaims.command_cases with hsame | ⟨hdecided, version, rfl⟩
  · exact h.of_eq rfl rfl hsame
  · cases h with
    | untouched fence _ intact => exact .untouched fence ⟨nofun, nofun⟩ intact
    | fencing _ _ handling =>
      rw [handling] at hanswered
      rcases hanswered hdecided with h | h <;> cases h
    | taken _ replied =>
      rw [replied] at hanswered
      rcases hanswered hdecided with h | h <;> cases h

theorem Reversible.noOp {start : State} (h : Reversible cfg start.node s) : NoOp cfg start s := by
  intro hphase hhandled
  obtain ⟨lease, hlease, hheld⟩ := h.leasing.held (by rw [hphase]; rfl)
  refine ⟨⟨lease, hlease, hheld.owner⟩, ?_⟩
  have hcommand := h.answered (by rw [hphase]; rfl)
  cases h.owned with
  | untouched _ _ intact => exact intact
  | fencing _ fence =>
    rw [hhandled.2] at fence
    cases fence
  | taken _ command =>
    rw [command] at hcommand
    rcases hcommand with hcommand | hcommand <;> cases hcommand

theorem Intact.start (h : Intact cfg before s.node)
    (hchannels : channels.toFinset = s.node.tracked cfg.session) :
    Partway cfg before (Fencing.start s.node cfg.session channels).1
      (Fencing.start s.node cfg.session channels).2 := by
  refine ⟨rfl, ?_, h.registered, ?_, nodup_nil, forall_mem_nil _, ?_⟩
  · simp [Fencing.start, Session.markClosed]
  · intro ch hch
    have htracked : ch ∈ s.node.tracked cfg.session := hchannels ▸ mem_toFinset.mpr hch
    rw [← entry_true_iff, ← h.subscriptions]
    exact entry_true_iff.mpr htracked
  · intro ch
    have hentry : (Fencing.start s.node cfg.session channels).1.entry cfg.session =
        s.node.entry cfg.session := Node.entry_setSession rfl rfl
    rw [hentry, h.subscriptions]
    simp [Fencing.start]

theorem succeeded_step (h : s.phase.succeeded) (hstep : step cfg s a = some s') :
    s'.phase.succeeded := by
  by_cases ha : a.ofClaimant
  · obtain ⟨d, command, phase, rfl, hclaims⟩ := claimant_cases ha hstep
    rw [hclaims.not_succeeded] at h
    cases h
  · rw [(keeps_owner (by simpa using ha) hstep).1]
    exact h

section
variable (h : Reversible cfg before s)
include h

theorem Reversible.refresh : Reversible cfg before
      { s with refreshes := s.refreshes ++ [s.node.beginSync cfg.owner cfg.session] } := by
  refine { h with refreshes := forall_mem_snoc h.refreshes ?_, owned := h.owned.of_eq rfl rfl rfl }
  rw [← h.identified.sessionID, ← h.identified.leaseVersion]
  exact ⟨nofun, beginSync_of⟩

theorem Reversible.sync (hnamed : cfg.sessionID ≠ "") (hdistinct : cfg.owner ≠ cfg.claimant)
    (hok : Contained cfg s (.sync k ok))
    (hstep : syncStep cfg s k ok = some s') : Reversible cfg before s' := by
  obtain ⟨y, ⟨d, y'⟩, hk, hy, rfl⟩ := Option.bind_map_eq_some hstep
  have hyof := (h.refreshes y (mem_of_getElem? hk)).2
  suffices hkept : Leasing cfg (before.sessions cfg.session).leaseVersion d s.phase ∧
      y'.pc ≠ .returned .fenced ∧
      y'.Of cfg.sessionID cfg.owner (before.sessions cfg.session).leaseVersion by
    exact { h with
      refreshes := forall_mem_set h.refreshes hkept.2
      leasing := hkept.1
      owned := h.owned.of_eq rfl rfl rfl }
  cases ok with
  | false =>
    obtain ⟨rfl, rfl⟩ := Sync.step_of_unanswered hy
    exact ⟨h.leasing, nofun, hyof.desired, nofun⟩
  | true =>
    cases hclaimed : s.phase.claimed with
    | some p =>
      obtain ⟨hlease, hdesired, -⟩ := h.leasing.claimed p hclaimed
      have howner : p.2.owner = cfg.owner := hok rfl p.2 hlease
      rw [hdesired] at howner
      exact absurd howner.symm hdistinct
    | none =>
      obtain ⟨lease, hlease, hheld⟩ := h.leasing.held hclaimed
      obtain ⟨hyof', hunfenced, ⟨rfl, -⟩ | ⟨-, -, rfl⟩⟩ :=
        Sync.step_of_held hyof hnamed hlease hheld hy
      · exact ⟨h.leasing, hunfenced, hyof'⟩
      · refine ⟨⟨fun _ => ⟨y.desired, update_self _ _ _, hyof.desired⟩, ?_,
          h.leasing.seen⟩, hunfenced, hyof'⟩
        rw [hclaimed]
        exact nofun

theorem Reversible.selfFence (hstep : step cfg s (.selfFence k channels) = some s') : False := by
  obtain ⟨y, hk, hpc, -⟩ := selfFence_cases hstep
  exact (h.refreshes y (mem_of_getElem? hk)).1 hpc

theorem Reversible.handle (hstep : handle cfg s channels = some s') : Reversible cfg before s' := by
  obtain ⟨version, hpending, hcases⟩ := handle_cases hstep
  -- the command is pending, so the resume is still waiting for it
  have hundecided : s.phase.undecided = false → False := by
    intro hdecided
    rcases h.answered hdecided with hcommand | hcommand <;> rw [hpending] at hcommand <;>
      cases hcommand
  have hintact : s.fence = none ∧ Intact cfg before s.node := by
    cases h.owned with
    | untouched fence _ intact => exact ⟨fence, intact⟩
    | fencing _ _ command | taken _ command =>
      rw [hpending] at command
      cases command
  rcases hcases with ⟨succeeded, rfl⟩ | ⟨c, hlookup, hbegin⟩
  · refine { h with answered := fun hdecided => (hundecided hdecided).elim, owned := ?_ }
    cases succeeded with
    | true => exact .taken hintact.1 rfl
    | false => exact .untouched hintact.1 ⟨nofun, nofun⟩ hintact.2
  · rw [hintact.2.registered] at hlookup
    cases hlookup
    rcases beginFence_cases hbegin with ⟨hclosed, -⟩ | ⟨-, -, hchannels, rfl⟩
    · exact absurd hclosed hintact.2.opened
    · exact { h with
        identified := h.identified.setSession rfl rfl
        answered := fun hdecided => (hundecided hdecided).elim
        owned := .fencing _ rfl rfl (hintact.2.start hchannels) }

theorem Reversible.fence (hvalid : ∀ ch, (before.entry cfg.session ch).1.isSome → validTopic ch)
    (hok : Contained cfg s (.fence ok adjusted))
    (hstep : fenceStep s ok adjusted = some s') : Reversible cfg before s' := by
  obtain ⟨f, forCommand, hf, hcases⟩ := fenceStep_cases hstep
  cases h.owned with
  | untouched fence | taken fence =>
    rw [hf] at fence
    cases fence
  | fencing g fence command partway =>
    rw [hf] at fence
    cases fence
    have hundecided : s.phase.undecided = false → False := by
      intro hdecided
      rcases h.answered hdecided with hcommand | hcommand <;> rw [command] at hcommand <;>
        cases hcommand
    have hundoes : Undoes f ok := hok (f, true) hf
    rcases hcases with ⟨n, f', hn, rfl⟩ | ⟨n, succeeded, hn, rfl⟩
    · obtain ⟨hid, hpart⟩ := partway.step hvalid h.identified hundoes hn
      exact { h with identified := hid, owned := .fencing f' rfl command hpart }
    · obtain ⟨hid, hintact⟩ := partway.step hvalid h.identified hundoes hn
      refine { h with
        identified := hid
        answered := fun hdecided => (hundecided hdecided).elim
        owned := ?_ }
      cases succeeded with
      | true => exact .taken rfl rfl
      | false => exact .untouched rfl ⟨nofun, nofun⟩ (hintact rfl)

theorem Reversible.claimant (hnamed : cfg.sessionID ≠ "")
    (ha : a.ofClaimant) (hok : Contained cfg s a) (hstep : step cfg s a = some s') :
    s'.phase.succeeded ∨ Reversible cfg before s' := by
  obtain ⟨d, command, phase, rfl, hclaims⟩ := claimant_cases ha hstep
  by_cases hgoing : phase.succeeded
  · exact .inl hgoing
  right
  exact { h with
    leasing := (h.leasing.claimant hnamed hok hclaims).resolve_left hgoing
    answered := answered_step h.answered hok hclaims (by simpa using hgoing)
    owned := h.owned.claimant h.answered hclaims }

theorem Reversible.step (hserved : Served cfg s₀)
    (hvalid : ∀ ch, (before.entry cfg.session ch).1.isSome → validTopic ch)
    (hscope : a.ofSubscription = false) (hok : Contained cfg s a)
    (hstep : step cfg s a = some s') : s'.phase.succeeded ∨ Reversible cfg before s' := by
  cases a with
  | add | remove | call => cases hscope
  | refresh =>
    simp only [Resume.step] at hstep
    split_ifs at hstep
    cases hstep
    exact .inr h.refresh
  | sync k ok => exact .inr (h.sync hserved.named hserved.distinct hok hstep)
  | selfFence k channels => exact (h.selfFence hstep).elim
  | handle channels => exact .inr (h.handle hstep)
  | fence ok adjusted => exact .inr (h.fence hvalid hok hstep)
  | resume | reply | giveUp | nodeLease => exact h.claimant hserved.named rfl hok hstep

end

theorem reversible_start (hserved : Served cfg s) : Reversible cfg s.node s := by
  obtain ⟨lease, hlease, hsid, howner, hversion⟩ := hserved.lease
  obtain ⟨hcalls, hrefreshes, hfence, hcommand, hphase, -⟩ := hserved.idle
  refine ⟨hcalls, ⟨hserved.sessionID, rfl⟩, ?_, ?_, fun _ => .inl hcommand, ?_⟩
  · rw [hrefreshes]
    exact forall_mem_nil _
  · rw [hphase]
    exact ⟨fun _ => ⟨lease, hlease, hsid, howner, hversion⟩, nofun, nofun⟩
  · refine .untouched hfence ?_ ⟨hserved.opened, hserved.registered, rfl⟩
    rw [hcommand]
    exact ⟨nofun, nofun⟩

end Owner

/-- A resume that is contained and fails leaves the session with its owner. -/
theorem failed_resume_noOp {cfg : Config} {start s : State} {as : List Action}
    (hserved : Served cfg start)
    (hvalid : ∀ ch, (start.node.entry cfg.session ch).1.isSome → validTopic ch)
    (hrun : run cfg start as = some s) (hscope : ∀ a ∈ as, a.ofSubscription = false)
    (hcontained : Transition.Along (step cfg) (Contained cfg) start as) : NoOp cfg start s := by
  have hinv : s.phase.succeeded ∨ Reversible cfg start.node s := by
    refine Transition.invariant_along
      (P := fun s => s.phase.succeeded ∨ Reversible cfg start.node s)
      (.inr (reversible_start hserved)) ?_ hrun
      (Transition.along_and (step cfg) hcontained
        (Transition.along_of_forall (step cfg) (fun a ha _ => hscope a ha) start))
    rintro s a t (hsucceeded | hrev) ⟨hok, hsub⟩ hstep
    · exact .inl (succeeded_step hsucceeded hstep)
    · exact hrev.step hserved hvalid hsub hok hstep
  rcases hinv with hsucceeded | hrev
  · intro hphase
    rw [hphase] at hsucceeded
    cases hsucceeded
  · exact hrev.noOp

section Runs

def servingRoom : State :=
  { serving with
    node := (serving.node.restoreLocalSubscription "room" (newSubscriber 0 false) true).2 }

theorem served_servingRoom : Served nodes servingRoom :=
  ⟨by decide, by decide, rfl, rfl, by decide, rfl,
    ⟨_, rfl, rfl, rfl, rfl⟩, rfl, rfl, rfl, rfl, rfl, rfl⟩

theorem validTopic_servingRoom (ch : String)
    (h : (servingRoom.node.entry nodes.session ch).1.isSome) : validTopic ch := by
  have hnone : ∀ x, serving.node.lookupSubscriber x 0 = none := by
    intro x
    unfold Node.lookupSubscriber Hub.lookupSubscriber
    split_ifs <;> rfl
  have halt := Node.altered_restoreLocalSubscription (newSubscriber 0 false) (hnone "room")
    (by decide)
  have hentry : servingRoom.node.entry nodes.session = _ := halt.entries
  by_cases hroom : ch = "room"
  · rw [hroom]
    decide
  · rw [hentry, update_of_ne hroom] at h
    simp [Node.entry, newSubscriber, hnone] at h

def refusedTakeover : List Action :=
  [.resume true, .resume true, .resume true, .resume true, .handle ["room"], .fence false true,
    .fence true true, .fence true true, .fence true true, .reply, .nodeLease (some true),
    .resume true]

theorem failed_resume_noOp_refused :
    ∃ s, run nodes servingRoom refusedTakeover = some s ∧ s.command = .replied false ∧
      NoOp nodes servingRoom s :=
  ⟨_, rfl, rfl, failed_resume_noOp served_servingRoom validTopic_servingRoom
    (rfl : run nodes servingRoom refusedTakeover = _) (by decide) (by decide)⟩

/-- The resume gives up before its command is handled and takes the lease back. The command is
handled all the same: the directory names the owner, which has fenced the session. -/
theorem failed_resume_fences_owner :
    Served nodes servingRoom ∧
      ∃ as s, run nodes servingRoom as = some s ∧ (∀ a ∈ as, a.ofSubscription = false) ∧
        s.phase = .returned .error ∧ Handled s ∧
        (∃ lease, s.directory.leases "s1" = some lease ∧ lease.owner = nodes.owner) ∧
        s.node.hub.lookupSession "s1" = none ∧ ¬ NoOp nodes servingRoom s := by
  refine ⟨served_servingRoom, [.resume true, .resume true, .resume true, .resume true, .giveUp,
    .nodeLease (some true), .resume true, .handle ["room"], .fence true true, .fence true true],
    _, rfl, by decide, rfl, ⟨.inr ⟨true, rfl⟩, rfl⟩, ⟨_, rfl, rfl⟩, rfl, ?_⟩
  intro hnoOp
  exact absurd (hnoOp rfl ⟨.inr ⟨true, rfl⟩, rfl⟩).2.registered (by decide)

end Runs

end MessageLoop.Resume
