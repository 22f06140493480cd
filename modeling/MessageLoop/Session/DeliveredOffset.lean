import MessageLoop.Session.Broadcast

/-! What a subscriber's delivered offset promises, in every interleaving: the offset is sound as
long as no confirmed send is recorded after a refused one. -/

namespace MessageLoop.Broadcast

open List Finmap

variable {s t : State} {c : Call} {sid : String}

section Lookups

theorem lookup_bump (offset : Nat) (subs : Subscribers) (sid other : String) :
    (bump offset subs sid).lookup other =
      if other = sid then (subs.lookup sid).map fun sub =>
        { sub with deliveredOffset := max sub.deliveredOffset offset }
      else subs.lookup other := by
  unfold bump
  by_cases hother : other = sid
  · subst hother
    cases hlook : subs.lookup other with
    | none => simp [hlook]
    | some sub =>
      by_cases hlt : sub.deliveredOffset < offset
      · simp [hlt, max_eq_right hlt.le]
      · simp [hlt, hlook, max_eq_left (not_lt.mp hlt)]
  · cases hlook : subs.lookup sid with
    | none => simp [hother]
    | some sub =>
      by_cases hlt : sub.deliveredOffset < offset
      · simp [hlt, hother]
      · simp [hlt, hother]

theorem lookup_recordDeliveredOffsets_eq (subs : Subscribers) (offset : Nat) (clients : List String)
    (delivered : String → Bool) (sid : String) :
    ∃ raise : Nat → Nat, (recordDeliveredOffsets subs offset clients delivered).lookup sid =
      (subs.lookup sid).map fun sub =>
        { sub with deliveredOffset := raise sub.deliveredOffset } := by
  induction clients generalizing subs with
  | nil => exact ⟨id, by simp [recordDeliveredOffsets]⟩
  | cons client clients ih =>
    obtain ⟨raise, hraise⟩ := ih (if delivered client then bump offset subs client else subs)
    rw [recordDeliveredOffsets, foldl_cons, ← recordDeliveredOffsets, hraise]
    split_ifs
    · rw [lookup_bump]
      split_ifs with hsid
      · subst hsid
        exact ⟨fun o => raise (max o offset), by rw [Option.map_map]; rfl⟩
      · exact ⟨raise, rfl⟩
    · exact ⟨raise, rfl⟩

theorem lookup_recordDeliveredOffsets {subs : Subscribers} {offset : Nat} {clients : List String}
    {delivered : String → Bool} {sub : Subscriber}
    (h : (recordDeliveredOffsets subs offset clients delivered).lookup sid = some sub) :
    ∃ old, subs.lookup sid = some old ∧
      (sub = old ∨ sid ∈ clients ∧ delivered sid ∧
        sub.deliveredOffset = max old.deliveredOffset offset) := by
  induction clients generalizing subs with
  | nil => exact ⟨sub, h, .inl rfl⟩
  | cons client clients ih =>
    obtain ⟨mid, hmid, hcase⟩ := ih h
    by_cases hdel : delivered client
    · simp only [hdel, if_true, lookup_bump] at hmid
      by_cases hsid : sid = client
      · subst hsid
        rw [if_pos rfl] at hmid
        obtain ⟨old, hold, rfl⟩ := Option.map_eq_some_iff.mp hmid
        refine ⟨old, hold, .inr ⟨mem_cons_self, hdel, ?_⟩⟩
        rcases hcase with rfl | ⟨-, -, hmax⟩
        · rfl
        · simpa using hmax
      · rw [if_neg hsid] at hmid
        exact ⟨mid, hmid, hcase.imp_right fun ⟨hmem, hrest⟩ => ⟨mem_cons_of_mem _ hmem, hrest⟩⟩
    · simp only [hdel] at hmid
      exact ⟨mid, hmid, hcase.imp_right fun ⟨hmem, hrest⟩ => ⟨mem_cons_of_mem _ hmem, hrest⟩⟩

theorem le_foldl_max (o m : Nat) (offsets : List Nat) (h : o ≤ m ∨ o ∈ offsets) :
    o ≤ offsets.foldl max m := by
  induction offsets generalizing m with
  | nil => exact h.resolve_right not_mem_nil
  | cons p offsets ih =>
    refine ih (max m p) ?_
    rcases h with h | h
    · exact .inl (h.trans (le_max_left m p))
    · rcases mem_cons.mp h with rfl | h
      · exact .inl (le_max_right m o)
      · exact .inr h

theorem le_maxOffset {o : Nat} {offsets : List Nat} (h : o ∈ offsets) :
    o ≤ maxOffset offsets :=
  le_foldl_max o 0 offsets (.inr h)

end Lookups

section Accounting

def Call.Pending (c : Call) (sid : String) : Prop :=
  sid ∈ c.clients ∧ ((c.sends sid).stage = .unsent ∨ ∃ q, (c.sends sid).stage = .reading q)

/-- `covered` is the ledger: what was broadcast under a subscription was taken by the queue, or
counts as missed, or its send is still to be decided. -/
structure Accounted (s : State) : Prop where
  settled : ∀ sid, (s.sessions sid).state = .attached ∨ (s.sessions sid).attachment = none
  subsBelow : ∀ sid sub, s.subs.lookup sid = some sub → sub.deliveredOffset ≤ s.lastOffset
  heldBelow : ∀ sid sub, s.held.lookup sid = some sub → sub.deliveredOffset ≤ s.lastOffset
  callBelow : ∀ c, s.current = some c → maxOffset c.offsets ≤ s.lastOffset
  covered : ∀ sid ∈ s.subs, ∀ o ∈ s.since sid, o ∈ s.accepted sid ∨ sid ∈ s.missed ∨
    ∃ c, s.current = some c ∧ c.Pending sid ∧ o ∈ c.offsets
  sound : Sound s

/-- The delivered offsets of a broadcast are recorded only for subscriptions without a refused
send. -/
def RecordsIntact (s : State) : Action → Prop
  | .record => ∀ c, s.current = some c → ∀ sid ∈ c.clients, c.delivered sid → sid ∈ s.subs →
      sid ∉ s.missed
  | _ => True

instance (s : State) : (a : Action) → Decidable (RecordsIntact s a)
  | .record =>
    match h : s.current with
    | none => isTrue fun c hc => by rw [h] at hc; cases hc
    | some c =>
      decidable_of_iff (∀ sid ∈ c.clients, c.delivered sid → sid ∈ s.subs → sid ∉ s.missed) (by
        simp [RecordsIntact, h])
  | .begin .. | .send .. | .enqueue _ | .confirm .. | .addSub .. | .removeSub _
  | .rollbackRemove _ | .addWildcard _ | .removeWildcard _ | .attach .. | .detach _ | .close _
  | .write _ | .otherFrame .. => isTrue trivial

theorem accounted_start {sessions : String → Session} (maxMessageSize : Nat)
    (h : ∀ sid, (sessions sid).state = .attached ∨ (sessions sid).attachment = none) :
    Accounted (State.start sessions maxMessageSize) where
  settled := h
  subsBelow _ _ h := by simp [State.start] at h
  heldBelow _ _ h := by simp [State.start] at h
  callBelow _ h := by simp [State.start] at h
  covered _ h := absurd h notMem_empty
  sound _ _ h := by simp [State.start] at h

theorem pending_setStage {other : String} {stage : Stage} (hne : other ≠ sid)
    (h : c.Pending other) : (c.setStage sid stage).Pending other := by
  simpa [Call.Pending, Call.setStage, hne] using h

section
variable (h : Accounted s)
include h

theorem Accounted.setSession {sess : Session}
    (hsess : sess.state = .attached ∨ sess.attachment = none) : Accounted (s.setSession sid sess) :=
  { h with
    settled := by
      intro other
      by_cases hother : other = sid
      · subst hother
        simpa [State.setSession] using hsess
      · simpa [State.setSession, hother] using h.settled other }

theorem Accounted.begin {offsets : List Nat} {frames : Marshaler → Option Nat} {order : List String}
    (hstep : begin s offsets frames order = some t) :
    Accounted t := by
  unfold Broadcast.begin at hstep
  split at hstep
  · rename_i hguard
    obtain ⟨hidle, hne, hinc, -, horder⟩ := hguard
    cases hstep
    have habove : ∀ o ∈ offsets, s.lastOffset < o := (pairwise_cons.mp hinc).1
    have hlast : s.lastOffset ≤ maxOffset offsets := by
      obtain ⟨o, rest, rfl⟩ := exists_cons_of_ne_nil hne
      exact (habove o mem_cons_self).le.trans (le_maxOffset mem_cons_self)
    have hclient : ∀ sid ∈ s.subs, sid ∈ order := by
      intro sid hsid
      rw [← mem_toFinset, horder]
      exact Finset.mem_union_left _ (mem_keys.mpr hsid)
    refine ⟨h.settled, fun sid sub hsub => (h.subsBelow sid sub hsub).trans hlast,
      fun sid sub hsub => (h.heldBelow sid sub hsub).trans hlast, ?_, ?_, ?_⟩
    · intro c hc
      dsimp only at hc
      split at hc
      · cases hc
      · cases hc
        exact le_rfl
    · intro sid hsid o ho
      have hcall : order ≠ [] := ne_nil_of_mem (hclient sid hsid)
      simp only [if_pos hsid, mem_append] at ho
      rcases ho with ho | ho
      · rcases h.covered sid hsid o ho with hacc | hmiss | ⟨c, hc, -⟩
        · exact .inl hacc
        · exact .inr (.inl hmiss)
        · rw [hidle] at hc
          cases hc
      · exact .inr (.inr ⟨_, if_neg hcall, ⟨hclient sid hsid, .inl rfl⟩, ho⟩)
    · intro sid sub hsub o ho hle
      have hsid : sid ∈ s.subs := mem_of_lookup_eq_some hsub
      simp only [if_pos hsid, mem_append] at ho
      rcases ho with ho | ho
      · exact h.sound sid sub hsub o ho hle
      · have := habove o ho
        have := h.subsBelow sid sub hsub
        omega
  · cases hstep

section
variable (hc : s.current = some c)
include hc

theorem Accounted.advance {c' : Call} (hoffsets : c'.offsets = c.offsets)
    (hpending : ∀ sid, c.Pending sid → c'.Pending sid) : Accounted { s with current := some c' } :=
  { h with
    callBelow := by
      rintro _ ⟨⟩
      rw [hoffsets]
      exact h.callBelow c hc
    covered := by
      intro sid hsid o ho
      rcases h.covered sid hsid o ho with hacc | hmiss | ⟨d, hd, hpend, hmem⟩
      · exact .inl hacc
      · exact .inr (.inl hmiss)
      · cases hc.symm.trans hd
        exact .inr (.inr ⟨c', rfl, hpending sid hpend, hoffsets ▸ hmem⟩) }

theorem Accounted.fail : Accounted (fail s c sid) :=
  { h with
    callBelow := by
      rintro _ ⟨⟩
      exact h.callBelow c hc
    covered := by
      intro other hother o ho
      have hgrow : other ∈ s.missed → other ∈ (Broadcast.fail s c sid).missed := by
        intro hmiss
        simp only [Broadcast.fail]
        split
        · exact Finset.mem_insert_of_mem hmiss
        · exact hmiss
      rcases h.covered other hother o ho with hacc | hmiss | ⟨d, hd, hpend, hmem⟩
      · exact .inl hacc
      · exact .inr (.inl (hgrow hmiss))
      · cases hc.symm.trans hd
        by_cases hsid : other = sid
        · subst hsid
          have hany : c.offsets.any (· ∈ s.since other) :=
            any_eq_true.mpr ⟨o, hmem, by simpa [Broadcast.fail] using ho⟩
          exact .inr (.inl (by simp [Broadcast.fail, hany]))
        · exact .inr (.inr ⟨_, rfl, pending_setStage hsid hpend, hmem⟩) }

theorem Accounted.sendFrame {write : Bool} : Accounted (sendFrame s c sid write) := by
  unfold Broadcast.sendFrame
  dsimp only
  split
  · exact h.fail hc
  · split
    · exact h.fail hc
    · split
      · refine h.advance hc rfl fun other hpend => ?_
        by_cases hother : other = sid
        · subst hother
          exact ⟨hpend.1, .inl (by simp)⟩
        · simpa [Call.Pending, hother] using hpend
      · split
        · refine h.advance hc rfl fun other hpend => ?_
          by_cases hother : other = sid
          · subst hother
            exact ⟨hpend.1, .inr ⟨(s.sessions other).outID, by simp [Call.setStage]⟩⟩
          · exact pending_setStage hother hpend
        · rename_i hstate
          rw [if_pos (.inl ((h.settled sid).resolve_left hstate))]
          exact h.fail hc

theorem Accounted.enqueue {queue : Nat} : Accounted (enqueue s c sid queue) := by
  unfold Broadcast.enqueue
  dsimp only
  split
  · exact h.fail hc
  · split
    · rename_i q hq
      have hsess : Accounted (s.setSession sid { s.sessions sid with out := q }) :=
        h.setSession (h.settled sid)
      refine { hsess with callBelow := ?_, covered := ?_, sound := ?_ }
      · rintro _ ⟨⟩
        exact h.callBelow c hc
      · intro other hother o ho
        rcases h.covered other hother o ho with hacc | hmiss | ⟨d, hd, hpend, hmem⟩
        · refine .inl ?_
          by_cases hsid : other = sid
          · subst hsid
            simp [hacc]
          · simpa [hsid] using hacc
        · exact .inr (.inl hmiss)
        · cases hc.symm.trans hd
          by_cases hsid : other = sid
          · subst hsid
            exact .inl (by simp [hmem])
          · exact .inr (.inr ⟨_, rfl, pending_setStage hsid hpend, hmem⟩)
      · intro other sub hsub o ho hle
        have hacc := h.sound other sub hsub o ho hle
        by_cases hsid : other = sid
        · subst hsid
          simp [hacc]
        · simpa [hsid] using hacc
    · exact (h.setSession (.inr rfl)).fail hc
    · exact h.fail hc

theorem Accounted.record
    (hintact : ∀ sid ∈ c.clients, c.delivered sid → sid ∈ s.subs → sid ∉ s.missed)
    (hstep : record s c = some t) : Accounted t := by
  unfold Broadcast.record at hstep
  split at hstep
  · rename_i hdone
    cases hstep
    have hsettledSend : ∀ sid, ¬ c.Pending sid := by
      rintro sid ⟨hmem, hstage⟩
      rcases hdone sid hmem with hd | hd <;> simp [hd] at hstage
    have hledger : ∀ sid ∈ s.subs, ∀ o ∈ s.since sid, o ∈ s.accepted sid ∨ sid ∈ s.missed := by
      intro sid hsid o ho
      rcases h.covered sid hsid o ho with hacc | hmiss | ⟨d, hd, hpend, -⟩
      · exact .inl hacc
      · exact .inr hmiss
      · cases hc.symm.trans hd
        exact absurd hpend (hsettledSend sid)
    refine ⟨h.settled, ?_, h.heldBelow, nofun, ?_, ?_⟩
    · intro sid sub hsub
      obtain ⟨old, hold, rfl | ⟨-, -, hmax⟩⟩ := lookup_recordDeliveredOffsets hsub
      · exact h.subsBelow sid sub hold
      · rw [hmax]
        exact max_le (h.subsBelow sid old hold) (h.callBelow c hc)
    · intro sid hsid o ho
      obtain ⟨sub, hsub⟩ := mem_iff.mp hsid
      obtain ⟨old, hold, -⟩ := lookup_recordDeliveredOffsets hsub
      exact (hledger sid (mem_of_lookup_eq_some hold) o ho).imp_right .inl
    · intro sid sub hsub o ho hle
      obtain ⟨old, hold, rfl | ⟨hmem, hdel, -⟩⟩ := lookup_recordDeliveredOffsets hsub
      · exact h.sound sid sub hold o ho hle
      · have hsid : sid ∈ s.subs := mem_of_lookup_eq_some hold
        exact (hledger sid hsid o ho).resolve_right (hintact sid hmem hdel hsid)
  · cases hstep

theorem Accounted.confirm {stage : Stage} (hqueued : (c.sends sid).stage = .queued) :
    Accounted { s with current := some (c.setStage sid stage) } := by
  refine h.advance hc rfl fun other hpend => ?_
  by_cases hother : other = sid
  · subst hother
    have := hpend.2
    simp [hqueued] at this
  · exact pending_setStage hother hpend

end

theorem Accounted.addRecord {sub : Subscriber} {held : Subscribers}
    (hsub : sub.deliveredOffset ≤ s.lastOffset)
    (hheld : ∀ sid sub, held.lookup sid = some sub → sub.deliveredOffset ≤ s.lastOffset) :
    Accounted { forget s sid with subs := s.subs.insert sid sub, held := held } := by
  refine ⟨h.settled, ?_, hheld, h.callBelow, ?_, ?_⟩
  · exact forall_lookup_insert hsub h.subsBelow
  · intro other hother o ho
    by_cases hsid : other = sid
    · subst hsid
      simp [forget] at ho
    · simp only [forget, Function.update_of_ne hsid] at ho
      have hmem : other ∈ s.subs := (mem_insert.mp hother).resolve_left hsid
      simpa [forget, hsid] using h.covered other hmem o ho
  · intro other record hrecord o ho hle
    by_cases hsid : other = sid
    · subst hsid
      simp [forget] at ho
    · simp only [forget, Function.update_of_ne hsid] at ho
      rw [lookup_insert_of_ne _ hsid] at hrecord
      exact h.sound other record hrecord o ho hle

theorem Accounted.removeSub {sub : Subscriber} (hsub : s.subs.lookup sid = some sub) :
    Accounted { s with subs := s.subs.erase sid, held := s.held.insert sid sub } := by
  refine ⟨h.settled, fun other record hr => h.subsBelow other record (lookup_of_erase hr),
    forall_lookup_insert (h.subsBelow sid sub hsub) h.heldBelow, h.callBelow, ?_,
    fun other record hr => h.sound other record (lookup_of_erase hr)⟩
  intro other hother
  exact h.covered other (mem_erase.mp hother).2

end

theorem attach_settled {sess sess' : Session} {att : Option Attachment} {probe : Bool}
    (h : sess.attach att probe = .ok sess') : sess'.state = .attached := by
  unfold Session.attach Session.attachLocked at h
  split at h
  · cases h
  · split at h
    · split at h <;> cases h <;> rfl
    · cases h

theorem detach_settled (sess : Session) (h : sess.state = .attached ∨ sess.attachment = none) :
    sess.detach.state = .attached ∨ sess.detach.attachment = none := by
  unfold Session.detach
  split
  · exact .inr rfl
  · exact h

end Accounting

section Main

theorem step_accounted {a : Action} (h : Accounted s) (hok : RecordsIntact s a)
    (hstep : step s a = some t) : Accounted t := by
  cases a with
  | begin offsets frames order => exact h.begin hstep
  | send sid write =>
    obtain ⟨c, hc, hstep⟩ := Option.bind_eq_some_iff.mp hstep
    split at hstep
    · exact Option.some.inj hstep ▸ h.sendFrame hc
    · cases hstep
  | enqueue sid =>
    obtain ⟨c, hc, hstep⟩ := Option.bind_eq_some_iff.mp hstep
    split at hstep
    · split at hstep
      · exact Option.some.inj hstep ▸ h.enqueue hc
      · cases hstep
    · cases hstep
  | confirm sid ok =>
    obtain ⟨c, hc, hstep⟩ := Option.bind_eq_some_iff.mp hstep
    split at hstep
    · rename_i hguard
      exact Option.some.inj hstep ▸ h.confirm hc hguard.2
    · cases hstep
  | record =>
    obtain ⟨c, hc, hstep⟩ := Option.bind_eq_some_iff.mp hstep
    exact h.record hc (hok c hc) hstep
  | addSub sid session ephemeral =>
    simp only [step] at hstep
    split at hstep
    · exact Option.some.inj hstep ▸ h
    · cases hstep
      exact h.addRecord (Nat.zero_le _) h.heldBelow
  | removeSub sid =>
    obtain ⟨sub, hsub, rfl⟩ := Option.map_eq_some_iff.mp hstep
    exact h.removeSub hsub
  | rollbackRemove sid =>
    obtain ⟨sub, hsub, rfl⟩ := Option.map_eq_some_iff.mp hstep
    refine h.addRecord (h.heldBelow sid sub hsub) fun other record hrecord => ?_
    by_cases hother : other = sid
    · subst hother
      simp at hrecord
    · rw [lookup_erase_ne hother] at hrecord
      exact h.heldBelow other record hrecord
  | addWildcard sid | removeWildcard sid => exact Option.some.inj hstep ▸ { h with }
  | attach sid att probe =>
    simp only [step] at hstep
    split at hstep
    · rename_i sess hsess
      exact Option.some.inj hstep ▸ h.setSession (.inl (attach_settled hsess))
    · exact Option.some.inj hstep ▸ h
  | detach sid =>
    exact Option.some.inj hstep ▸ h.setSession (detach_settled _ (h.settled sid))
  | close sid => exact Option.some.inj hstep ▸ h.setSession (.inr rfl)
  | write sid =>
    obtain ⟨fq, -, rfl⟩ := Option.map_eq_some_iff.mp hstep
    exact h.setSession (h.settled sid)
  | otherFrame sid frame =>
    simp only [step] at hstep
    split at hstep
    · exact Option.some.inj hstep ▸ h.setSession (h.settled sid)
    · exact Option.some.inj hstep ▸ h.setSession (.inr rfl)
    · exact Option.some.inj hstep ▸ h

/-- In every run that records delivered offsets only for subscriptions without a refused send,
the delivered offset of every subscription is sound. -/
theorem deliveredOffset_sound {sessions : String → Session} {maxMessageSize : Nat}
    {as : List Action}
    (hsettled : ∀ sid, (sessions sid).state = .attached ∨ (sessions sid).attachment = none)
    (hrun : run (State.start sessions maxMessageSize) as = some s)
    (hok : Transition.Along step RecordsIntact (State.start sessions maxMessageSize) as) :
    Sound s :=
  (Transition.invariant_along (P := Accounted) (accounted_start maxMessageSize hsettled)
    (fun _ _ _ h hok hstep => step_accounted h hok hstep) hrun hok).sound

def attachedSession (sid : String) : Session :=
  { Session.newClient sid ⟨0, 0, .protoJSON⟩ with state := .attached }

abbrev attachedStart : State :=
  .start attachedSession 1024

def broadcastAll (offset : Nat) : List Action :=
  [.begin [offset] (fun _ => some 64) ["a"], .send "a" true, .enqueue "a", .confirm "a" true,
    .record]

def detachedRun : List Action :=
  [.addSub "a" 0 false, .detach "a", .begin [1] (fun _ => some 64) ["a"], .send "a" true,
    .record, .attach "a" (some ⟨1, 1, .protoJSON⟩) true] ++ broadcastAll 2

theorem attachedSession_settled (sid : String) :
    (attachedSession sid).state = .attached ∨ (attachedSession sid).attachment = none :=
  .inl rfl

def connectedRun : List Action :=
  .addSub "a" 0 false :: (broadcastAll 1 ++ broadcastAll 2)

theorem deliveredOffset_sound_connected :
    (run attachedStart connectedRun).isSome ∧
      ∀ s, run attachedStart connectedRun = some s → Sound s :=
  ⟨by decide, fun _ hrun => deliveredOffset_sound attachedSession_settled hrun (by decide)⟩

theorem deliveredOffset_unsound_detached :
    ∃ s, run attachedStart detachedRun = some s ∧ ¬ Sound s := by
  refine ⟨_, rfl, fun h => ?_⟩
  have hlost := h "a" ⟨0, false, 2⟩ rfl 1 (by decide) (by decide)
  revert hlost
  decide

end Main

end MessageLoop.Broadcast
