import MessageLoop.Session.Connect

/-!
One session object for a session ID.

A hub lookup that misses starts a new object. As long as that happens only when nothing is left
of an earlier object, one object at a time is registered, subscribed and worked on by handlings,
closes and subscription calls.
-/

namespace MessageLoop.Connect

open List Option Function Connect Hub Session

def OpenAuthenticated (s : State) (c : SessionRef) : Prop :=
  c < s.conns.length ∧ (s.node.sessions c).session = s.sessionID ∧
    (s.node.sessions c).authenticated ∧ (s.node.sessions c).state ≠ .closed

instance (s : State) (c : SessionRef) : Decidable (OpenAuthenticated s c) :=
  inferInstanceAs (Decidable (_ ∧ _))

def actor (s : State) : Action → Option SessionRef
  | .handler i _ => some i
  | .unregister c => some c
  | .call k _ => s.calls[k]?.map SubCall.session
  | _ => none

/-- At most one open authenticated object carries the ID, and no step takes away a registration
or a subscription of another object than the one it works for. -/
structure OneObject (s : State) : Prop where
  unique : ∀ i j, OpenAuthenticated s i → OpenAuthenticated s j → i = j
  registrations : ∀ a t, step s a = some t → ∀ o,
    s.node.hub.lookupSession s.sessionID = some o →
    t.node.hub.lookupSession s.sessionID ≠ some o → actor s a = some o
  subscriptions : ∀ a t, step s a = some t → ∀ ch r,
    s.node.hub.lookupSubscriber ch s.sessionID = some r →
    t.node.hub.lookupSubscriber ch s.sessionID = none → actor s a = some r.session

/-- A session that has been closed, or has neither been authenticated nor tracks a channel. -/
def Settled (session : Session) : Prop :=
  session.state = .closed ∨ session.authenticated = false ∧ session.subscribedChannels = ∅

structure Quiet (s : State) (i : Nat) : Prop where
  calls : ∀ c ∈ s.calls, c.returned
  subscriptions : ∀ ch, s.node.hub.lookupSubscriber ch s.sessionID = none
  handlers : ∀ (j : Nat) (conn : Conn), s.conns[j]? = some conn → j ≠ i →
    conn.phase = .lookup ∨ conn.phase = .returned
  sessions : ∀ j < s.conns.length, j ≠ i → Settled (s.node.sessions j)

/-- A hub lookup misses only when nothing is left of an earlier object. -/
def MissesQuietly (s : State) : Action → Prop
  | .handler i _ =>
    (s.conns[i]?.map Conn.phase) = some .lookup →
      s.node.hub.lookupSession s.sessionID = none → Quiet s i
  | _ => True

def Phase.Owned (i : Nat) (cur : Option SessionRef) : Phase → Prop
  | .lookup | .returned => True
  | .identity e | .detach e | .readTemp e | .attach e _ | .demote e | .closeExisting e
  | .sync e => cur = some e
  | .resume | .readOwn _ | .attachOwn _ _ | .addHub _ | .addSync _ | .removeHub | .restore _
  | .restoring _ _ => cur = some i
  | .authenticate c resumedLocal _ => cur = some c ∧ (resumedLocal = false → c = i)
  | .subscribe c _ _ | .subscribing c _ _ _ _ _ | .rollback c _ | .rollingBack c _ _ => cur = some c
  | .close c => c = i ∨ cur = some c

def Owns (cur : Option SessionRef) (c : SubCall) : Prop :=
  cur = some c.session ∧ c.subscriber.session = c.session

/-- Everything that is registered, subscribed or in progress belongs to `cur`. -/
structure Sole (s : State) (cur : Option SessionRef) : Prop where
  ids : ∀ i < s.conns.length, (s.node.sessions i).session = s.sessionID
  bound : ∀ c, cur = some c → c < s.conns.length
  delegates : ∀ i < s.conns.length, ∀ e, (s.node.sessions i).delegate = some e →
    e < s.conns.length
  phases : ∀ (i : Nat) (conn : Conn), s.conns[i]? = some conn → conn.phase.Owned i cur
  others : ∀ i < s.conns.length, cur ≠ some i → Settled (s.node.sessions i)
  calls : ∀ c ∈ s.calls, c.returned ∨ Owns cur c
  records : ∀ ch r, s.node.hub.lookupSubscriber ch s.sessionID = some r → cur = some r.session
  registered : ∀ o, s.node.hub.lookupSession s.sessionID = some o → cur = some o

section Frame
variable {s : State} {cur : Option SessionRef} {i : Nat} {conn : Conn} {phase : Phase} {node : Node}
variable {session : Session} {hub : Hub} {c : SessionRef}
variable (hs : Sole s cur)
include hs

theorem Sole.setPhase (hphase : phase.Owned i cur) :
    Sole (s.setPhase i conn phase) cur := by
  have hlen : (s.setPhase i conn phase).conns.length = s.conns.length := length_set
  refine ⟨?_, ?_, ?_, ?_, ?_, hs.calls, hs.records, hs.registered⟩
  · intro j hj
    exact hs.ids j (hlen ▸ hj)
  · intro c hc
    rw [hlen]
    exact hs.bound c hc
  · intro j hj e he
    rw [hlen]
    exact hs.delegates j (hlen ▸ hj) e he
  · intro j d hj
    simp only [State.setPhase, getElem?_set] at hj
    split_ifs at hj with hij hlt
    · cases hj
      exact hij ▸ hphase
    · exact hs.phases j d hj
  · intro j hj hcur
    exact hs.others j (hlen ▸ hj) hcur

theorem Sole.setNode (hids : ∀ j, (node.sessions j).session = (s.node.sessions j).session)
    (hdelegates : ∀ j e, (node.sessions j).delegate = some e →
      (s.node.sessions j).delegate = some e ∨ e < s.conns.length)
    (hothers : ∀ j, cur ≠ some j → node.sessions j = s.node.sessions j ∨
      Settled (node.sessions j))
    (hrecords : ∀ ch r, node.hub.lookupSubscriber ch s.sessionID = some r →
      s.node.hub.lookupSubscriber ch s.sessionID = some r ∨ cur = some r.session)
    (hregistered : ∀ o, node.hub.lookupSession s.sessionID = some o →
      s.node.hub.lookupSession s.sessionID = some o ∨ cur = some o) :
    Sole (s.setNode node) cur := by
  refine ⟨?_, hs.bound, ?_, hs.phases, ?_, hs.calls, ?_, ?_⟩
  · intro j hj
    exact (hids j).trans (hs.ids j hj)
  · intro j hj e he
    rcases hdelegates j e he with hold | hlt
    · exact hs.delegates j hj e hold
    · exact hlt
  · intro j hj hcur
    rcases hothers j hcur with hsame | hsettled
    · show Settled (node.sessions j)
      rw [hsame]
      exact hs.others j hj hcur
    · exact hsettled
  · intro ch r hr
    rcases hrecords ch r hr with hold | hnew
    · exact hs.records ch r hold
    · exact hnew
  · intro o ho
    rcases hregistered o ho with hold | hnew
    · exact hs.registered o hold
    · exact hnew

theorem Sole.setSession (hid : session.session = (s.node.sessions c).session)
    (hdelegate : ∀ e, session.delegate = some e →
      (s.node.sessions c).delegate = some e ∨ e < s.conns.length)
    (hother : cur ≠ some c → Settled session) :
    Sole (s.setSession c session) cur := by
  apply hs.setNode
  · intro j
    by_cases hj : j = c
    · subst hj
      simpa using hid
    · simp [update_of_ne hj]
  · intro j e he
    by_cases hj : j = c
    · subst hj
      exact hdelegate e (by simpa using he)
    · left
      simpa [update_of_ne hj] using he
  · intro j hcur
    by_cases hj : j = c
    · subst hj
      right
      simpa using hother hcur
    · left
      simp [update_of_ne hj]
  · intro ch r hr
    exact .inl hr
  · intro o ho
    exact .inl ho

theorem Sole.setHub (hrecords : ∀ ch r, hub.lookupSubscriber ch s.sessionID = some r →
      s.node.hub.lookupSubscriber ch s.sessionID = some r)
    (hregistered : ∀ o, hub.lookupSession s.sessionID = some o →
      s.node.hub.lookupSession s.sessionID = some o ∨ cur = some o) :
    Sole (s.setHub hub) cur :=
  hs.setNode (fun _ => rfl) (fun _ _ he => .inl he) (fun _ _ => .inl rfl)
    (fun ch r hr => .inl (hrecords ch r hr)) hregistered

theorem Sole.spawn (calls : List SubCall) (hcalls : ∀ c ∈ calls, Owns cur c) :
    Sole (s.spawn calls) cur := by
  refine { hs with calls := ?_ }
  exact forall_mem_append.mpr ⟨hs.calls, fun c hc => .inr (hcalls c hc)⟩

theorem Sole.spawn_one {c : SubCall} (hc : Owns cur c) : Sole (s.spawn [c]) cur :=
  hs.spawn [c] fun _ ha => mem_singleton.mp ha ▸ hc

end Frame

section Steps
variable {s t : State} {cur : Option SessionRef} {i k : Nat} {conn : Conn} {ok : Bool}
variable {c e : SessionRef} {node : Node} {session : Session} {channels : List String} {a b : SubCall}

theorem attach_fields {a b : Session} {att : Option Attachment} {probe : Bool}
    (h : a.attach att probe = .ok b) : b.session = a.session ∧ b.delegate = a.delegate := by
  unfold Session.attach attachLocked at h
  split at h
  · cases h
  · split_ifs at h
    split at h <;> cases h <;> exact ⟨rfl, rfl⟩

theorem detach_fields (a : Session) :
    a.detach.session = a.session ∧ a.detach.delegate = a.delegate := by
  unfold detach
  split_ifs <;> exact ⟨rfl, rfl⟩

theorem handle_hub (h : handle s i conn ok = some t) :
    t.node.hub = s.node.hub ∨
      (∃ snapshot, conn.phase = .addHub snapshot) ∧ t.node.hub = s.node.hub.add s.sessionID i ∨
      conn.phase = .removeHub ∧ t.node.hub = s.node.hub.removeSession s.sessionID := by
  obtain ⟨request, phase⟩ := conn
  cases phase with
  | addHub snapshot =>
    simp only [handle] at h
    split_ifs at h
    · cases h
      exact .inr (.inl ⟨⟨snapshot, rfl⟩, rfl⟩)
    · cases h
      exact .inl rfl
  | removeHub =>
    cases h
    exact .inr (.inr ⟨rfl, rfl⟩)
  | addSync _ | sync _ =>
    simp only [handle] at h
    split at h <;> cases h
    · next hsync => exact .inl (Node.sync_frame hsync).2
    · exact .inl rfl
  | restore rest | subscribe c rest added | rollback c rest =>
    cases rest <;> simp only [handle] at h <;> repeat' split at h
    all_goals
      cases h
      exact .inl rfl
  | _ =>
    left
    simp only [handle] at h
    repeat' split at h
    all_goals
      cases h
      try rfl

theorem beginClose_hub (h : beginClose s c channels = some t) : t.node.hub = s.node.hub := by
  unfold beginClose at h
  simp only at h
  split_ifs at h <;> cases h <;> rfl

theorem lookupSession_congr {h h' : Hub} {sid : String} (hsessions : h'.sessions = h.sessions) :
    h'.lookupSession sid = h.lookupSession sid :=
  congrArg (Finmap.lookup sid) hsessions

variable (hs : Sole s cur)
include hs

theorem Sole.owns (hk : s.calls[k]? = some a) {r : Node × SubCall}
    (h : a.step s.node ok = some r) : Owns cur a := by
  rcases hs.calls a (mem_of_getElem? hk) with hret | howns
  · exfalso
    unfold SubCall.returned at hret
    split at hret
    · next result hpc => simp [SubCall.step, hpc] at h
    · cases hret
  · exact howns

theorem Sole.call (hk : s.calls[k]? = some a)
    (h : a.step s.node ok = some (node, b)) :
    Sole { s with node := node, calls := s.calls.set k b } cur := by
  obtain ⟨hcur, hsub⟩ := hs.owns hk h
  have heff := SubCall.step_effect hsub h
  obtain ⟨channels, hsessions⟩ := heff.touches.sessions
  have hid : s.node.sessionID a.session = s.sessionID := hs.ids a.session (hs.bound _ hcur)
  have hnode : Sole (s.setNode node) cur := by
    apply hs.setNode
    · intro j
      rw [hsessions]
      by_cases hj : j = a.session
      · subst hj
        simp
      · simp [update_of_ne hj]
    · intro j e he
      left
      rw [hsessions] at he
      by_cases hj : j = a.session
      · subst hj
        simpa using he
      · simpa [update_of_ne hj] using he
    · intro j hne
      left
      have hj : j ≠ a.session := fun hj => hne (hj ▸ hcur)
      rw [hsessions, update_of_ne hj]
    · intro ch r hr
      rcases heff.touches.hub with hhub | hhub | ⟨first, hhub⟩
      · left
        rwa [hhub] at hr
      · left
        rw [hhub, hid, lookupSubscriber_removeSub] at hr
        split_ifs at hr
        exact hr
      · rw [hid] at hhub
        rcases lookupSubscriber_addSub_or ch hhub with hold | hnew
        · left
          rwa [hold] at hr
        · right
          obtain rfl : a.subscriber = r := by simpa [hnew] using hr
          rw [hsub]
          exact hcur
    · intro o ho
      left
      rcases heff.touches.hub with hhub | hhub | ⟨first, hhub⟩
      · rwa [hhub] at ho
      · rw [hhub] at ho
        unfold lookupSession at ho ⊢
        rwa [sessions_removeSub] at ho
      · unfold lookupSession at ho ⊢
        rwa [sessions_addSub hhub] at ho
  refine { hnode with calls := forall_mem_set hs.calls (.inr ⟨heff.session ▸ hcur, ?_⟩) }
  rcases heff.subscriber with hsame | ⟨-, hfound⟩
  · rw [hsame, heff.session, hsub]
  · have hrec := hs.records _ _ (show s.node.hub.lookupSubscriber a.channel s.sessionID = _ by
      rw [← hid]; exact hfound)
    rw [hcur] at hrec
    rw [heff.session]
    exact (some.inj hrec).symm

theorem Sole.canonical_lt (hc : c < s.conns.length) : canonical s c < s.conns.length := by
  unfold canonical
  cases hd : (s.node.sessions c).delegate with
  | none => exact hc
  | some e => exact hs.delegates c hc e hd

theorem Sole.beginClose (hc : c < s.conns.length)
    (h : beginClose s c channels = some t) : Sole t cur := by
  unfold Connect.beginClose at h
  have hlt := hs.canonical_lt hc
  revert h
  generalize canonical s c = target at hlt ⊢
  intro h
  simp only at h
  split_ifs at h with hclosed hchannels
  · cases h
    exact hs
  · cases h
    have hmarked : Sole (s.setSession target (s.node.sessions target).markClosed) cur :=
      hs.setSession rfl (fun e he => .inl he) (fun _ => .inl rfl)
    have hspawned := hmarked.spawn (channels.map (SubCall.remove target)) (by
      refine forall_mem_map.mpr fun ch hch => ⟨?_, rfl⟩
      -- Only the current object can have a channel to remove.
      by_contra hne
      rcases hs.others target hlt hne with hst | ⟨-, hempty⟩
      · exact hclosed hst
      · have hmem : ch ∈ channels.toFinset := mem_toFinset.mpr hch
        rw [hchannels.2, hempty] at hmem
        cases hmem)
    exact { hspawned with }

theorem Sole.connect {request : Subscriptions}
    (h : step s (.connect request) = some t) : Sole t cur := by
  cases h
  have hlen : (s.conns ++ [(⟨request, .lookup⟩ : Conn)]).length = s.conns.length + 1 := by simp
  have hold : ∀ j, j < s.conns.length → update s.node.sessions s.conns.length
      (newClient s.sessionID ⟨s.conns.length, s.conns.length, .protobuf⟩) j =
        s.node.sessions j := by
    intro j hj
    exact update_of_ne (Nat.ne_of_lt hj) _ _
  have hnew : update s.node.sessions s.conns.length
      (newClient s.sessionID ⟨s.conns.length, s.conns.length, .protobuf⟩)
        s.conns.length = newClient s.sessionID _ := update_self _ _ _
  refine ⟨?_, ?_, ?_, ?_, ?_, hs.calls, hs.records, hs.registered⟩
  · intro j hj
    rcases Nat.lt_succ_iff_lt_or_eq.mp (hlen ▸ hj) with hlt | rfl
    · exact (congrArg session (hold j hlt)).trans (hs.ids j hlt)
    · exact congrArg session hnew
  · intro c hc
    rw [hlen]
    exact Nat.lt_succ_of_lt (hs.bound c hc)
  · intro j hj e he
    rw [hlen]
    rcases Nat.lt_succ_iff_lt_or_eq.mp (hlen ▸ hj) with hlt | rfl
    · exact Nat.lt_succ_of_lt
        (hs.delegates j hlt e ((congrArg delegate (hold j hlt)).symm.trans he))
    · cases (congrArg delegate hnew).symm.trans he
  · intro j d hj
    rw [getElem?_snoc] at hj
    split_ifs at hj
    · cases hj
      trivial
    · exact hs.phases j d hj
  · intro j hj hne
    rcases Nat.lt_succ_iff_lt_or_eq.mp (hlen ▸ hj) with hlt | rfl
    · exact (congrArg Settled (hold j hlt)).mpr (hs.others j hlt hne)
    · exact (congrArg Settled hnew).mpr (.inr ⟨rfl, rfl⟩)

theorem Sole.renew (hi : s.conns[i]? = some conn) (hp : conn.phase = .lookup)
    (hquiet : Quiet s i) (hmiss : s.node.hub.lookupSession s.sessionID = none) :
    Sole s (some i) := by
  refine { hs with
    bound := ?_
    phases := ?_
    others := fun j hj hne => hquiet.sessions j hj (fun he => hne (he ▸ rfl))
    calls := fun c hc => .inl (hquiet.calls c hc)
    records := fun ch r hr => by cases (hquiet.subscriptions ch).symm.trans hr
    registered := fun o ho => by cases hmiss.symm.trans ho }
  · rintro c ⟨⟩
    exact (List.getElem?_eq_some_iff.mp hi).1
  · intro j d hj
    by_cases hji : j = i
    · subst hji
      cases hi.symm.trans hj
      rw [hp]
      trivial
    · rcases hquiet.handlers j d hj hji with hp | hp <;> rw [hp] <;> trivial

theorem Sole.setCurrent (hcur : cur = some c)
    (hid : session.session = (s.node.sessions c).session)
    (hdelegate : session.delegate = (s.node.sessions c).delegate) :
    Sole (s.setSession c session) cur :=
  hs.setSession hid (fun _ he => .inl (hdelegate ▸ he)) (fun hne => absurd hcur hne)

theorem Sole.sync (h : s.node.syncClusterSessionState c ok = some node) :
    Sole (s.setNode node) cur := by
  obtain ⟨hsessions, hhub⟩ := Node.sync_frame h
  apply hs.setNode
  · intro j
    rw [hsessions]
  · intro j e he
    left
    rwa [hsessions] at he
  · intro j _
    left
    rw [hsessions]
  · intro ch r hr
    left
    rwa [hhub] at hr
  · intro o ho
    left
    rwa [hhub] at ho

theorem Sole.demote (hlt : i < s.conns.length)
    (hcur : cur = some e) : Sole (s.setSession i
      { s.node.sessions i with delegate := some e, attachment := none }) cur := by
  apply hs.setSession
  · rfl
  · intro e' he
    cases he
    exact .inr (hs.bound e hcur)
  · intro hne
    exact hs.others i hlt hne

theorem Sole.addHub (hcur : cur = some i) : Sole (s.setHub (s.node.hub.add s.sessionID i)) cur := by
  apply hs.setHub
  · intro ch r hr
    unfold add at hr
    split_ifs at hr <;> exact hr
  · intro o ho
    unfold add at ho
    split_ifs at ho
    · exact .inl ho
    · right
      obtain rfl : i = o := by simpa [lookupSession] using ho
      exact hcur

theorem Sole.handle (hi : s.conns[i]? = some conn)
    (hhit : conn.phase = .lookup → s.node.hub.lookupSession s.sessionID ≠ none)
    (h : handle s i conn ok = some t) : Sole t cur := by
  have howned := hs.phases i conn hi
  have hlt : i < s.conns.length := (List.getElem?_eq_some_iff.mp hi).1
  obtain ⟨request, phase⟩ := conn
  cases phase with
  | lookup =>
    cases hlookup : s.node.hub.lookupSession s.sessionID with
    | none => exact absurd hlookup (hhit rfl)
    | some e =>
      simp only [handle, hlookup, some.injEq] at h
      exact h ▸ hs.setPhase (hs.registered e hlookup)
  | identity e =>
    cases h
    exact Sole.setPhase (hs.setCurrent howned rfl rfl) howned
  | detach e =>
    cases h
    obtain ⟨hid, hdelegate⟩ := detach_fields (s.node.sessions e)
    exact (hs.setCurrent howned hid hdelegate).setPhase howned
  | readTemp e | readOwn snapshot =>
    simp only [handle] at h
    split at h
    · exact (some.inj h) ▸ hs.setPhase (.inl rfl)
    · exact (some.inj h) ▸ hs.setPhase howned
  | attach e handoff =>
    simp only [handle] at h
    split at h
    · next existing hattach =>
      obtain ⟨hid, hdelegate⟩ := attach_fields hattach
      exact (some.inj h) ▸ (hs.setCurrent howned hid hdelegate).setPhase howned
    · exact (some.inj h) ▸ hs.setPhase howned
  | demote e =>
    cases h
    exact (hs.demote hlt howned).setPhase ⟨howned, nofun⟩
  | attachOwn snapshot att =>
    simp only [handle] at h
    split at h
    · next session hattach =>
      obtain ⟨hid, hdelegate⟩ := attach_fields hattach
      exact (some.inj h) ▸
        (hs.setCurrent howned hid hdelegate).setPhase ⟨howned, fun _ => rfl⟩
    · exact (some.inj h) ▸ hs.setPhase (.inl rfl)
  | authenticate c resumedLocal snapshot =>
    cases h
    refine Sole.setPhase (hs.setCurrent howned.1 rfl rfl) ?_
    cases resumedLocal with
    | true => exact howned.1
    | false => exact howned.2 rfl ▸ howned.1
  | addHub snapshot =>
    simp only [handle] at h
    split_ifs at h
    · cases h
      exact (hs.addHub howned).setPhase howned
    · cases h
      exact hs.setPhase trivial
  | addSync snapshot =>
    simp only [handle] at h
    split at h
    · next node hsync => exact (some.inj h) ▸ (hs.sync hsync).setPhase howned
    · exact (some.inj h) ▸ hs.setPhase howned
  | removeHub =>
    cases h
    refine Sole.setPhase (hs.setHub (fun _ _ hr => hr) ?_) (.inl rfl)
    intro o ho
    simp [removeSession, lookupSession] at ho
  | sync e =>
    simp only [handle] at h
    split at h
    · next node hsync => exact (some.inj h) ▸ (hs.sync hsync).setPhase howned
    · exact (some.inj h) ▸ hs.setPhase (.inr howned)
  | restore rest =>
    cases rest <;> cases h
    · exact hs.setPhase howned
    · exact Sole.setPhase (hs.spawn_one ⟨howned, rfl⟩) howned
  | restoring rest k | rollingBack c rest k =>
    simp only [handle] at h
    split_ifs at h
    exact (some.inj h) ▸ hs.setPhase howned
  | subscribe c rest added =>
    cases rest with
    | nil =>
      cases h
      exact hs.setPhase trivial
    | cons entry rest =>
      simp only [handle] at h
      split_ifs at h
      · exact (some.inj h) ▸ hs.setPhase howned
      · cases h
        exact Sole.setPhase (hs.spawn_one ⟨howned, rfl⟩) howned
  | subscribing c rest added ch already k =>
    simp only [handle] at h
    split at h
    · exact (some.inj h) ▸ hs.setPhase howned
    · split_ifs at h <;> exact (some.inj h) ▸ hs.setPhase howned
    · cases h
  | rollback c added =>
    cases added <;> cases h
    · exact hs.setPhase trivial
    · exact Sole.setPhase (hs.spawn_one ⟨howned, rfl⟩) howned
  | resume | closeExisting e | close c | returned => cases h

theorem Sole.resume {outcome : ResumeOutcome} (hi : s.conns[i]? = some conn)
    (hp : conn.phase = .resume) : Sole (resumeRemote s i conn outcome) cur := by
  have hlt : i < s.conns.length := (List.getElem?_eq_some_iff.mp hi).1
  have howned := hs.phases i conn hi
  simp only [hp, Phase.Owned] at howned
  cases outcome with
  | none => exact Sole.setPhase hs howned
  | error => exact Sole.setPhase hs (.inl rfl)
  | claimed client subscriptions leaseVersion =>
    exact Sole.setPhase (hs.setCurrent howned (hs.ids i hlt).symm rfl) howned

theorem Sole.unregister :
    Sole (s.setHub (s.node.hub.removeSessionIfMatches s.sessionID c).2) cur := by
  apply hs.setHub
  · intro ch r hr
    unfold removeSessionIfMatches at hr
    split_ifs at hr <;> exact hr
  · intro o ho
    left
    unfold removeSessionIfMatches at ho
    split_ifs at ho
    · simp [removeSession, lookupSession] at ho
    · exact ho

theorem Sole.step {a : Action} (hquiet : MissesQuietly s a)
    (h : step s a = some t) : ∃ cur, Sole t cur := by
  cases a with
  | connect request => exact ⟨cur, hs.connect h⟩
  | handler i ok =>
    obtain ⟨conn, hi, hh⟩ := bind_eq_some_iff.mp h
    by_cases hmiss : conn.phase = .lookup ∧ s.node.hub.lookupSession s.sessionID = none
    · obtain ⟨hp, hnone⟩ := hmiss
      have hq : Quiet s i := hquiet (by simp [hi, hp]) hnone
      simp only [Connect.handle, hp, hnone, some.injEq] at hh
      exact ⟨some i, hh ▸ (hs.renew hi hp hq hnone).setPhase rfl⟩
    · exact ⟨cur, hs.handle hi (fun hp hnone => hmiss ⟨hp, hnone⟩) hh⟩
  | resume i outcome =>
    obtain ⟨conn, hi, hh⟩ := bind_eq_some_iff.mp h
    split_ifs at hh with hp
    exact ⟨cur, (some.inj hh) ▸ hs.resume hi hp⟩
  | handlerClose i channels =>
    obtain ⟨conn, hi, hh⟩ := bind_eq_some_iff.mp h
    have hlt : i < s.conns.length := (List.getElem?_eq_some_iff.mp hi).1
    have howned := hs.phases i conn hi
    refine ⟨cur, ?_⟩
    obtain ⟨request, phase⟩ := conn
    cases phase with
    | closeExisting e =>
      obtain ⟨m, hm, rfl⟩ := map_eq_some_iff.mp hh
      exact (hs.beginClose (hs.bound e howned) hm).setPhase (.inl rfl)
    | close c =>
      obtain ⟨m, hm, rfl⟩ := map_eq_some_iff.mp hh
      have hc : c < s.conns.length := by
        rcases howned with rfl | hcur
        · exact hlt
        · exact hs.bound c hcur
      exact (hs.beginClose hc hm).setPhase trivial
    | _ => cases hh
  | close c channels =>
    simp only [Connect.step] at h
    split_ifs at h with hc
    exact ⟨cur, hs.beginClose hc h⟩
  | unregister c =>
    simp only [Connect.step] at h
    split at h
    · split_ifs at h
      cases h
      exact ⟨cur, { hs.unregister (c := c) with }⟩
    · cases h
  | call k ok =>
    obtain ⟨r, hr, rfl⟩ := map_eq_some_iff.mp h
    obtain ⟨c, node, b, hk, -, hb, rfl⟩ := Calls.step_eq_some hr
    exact ⟨cur, hs.call hk hb⟩

theorem Sole.unique (hc : OpenAuthenticated s c) : cur = some c := by
  obtain ⟨hlt, -, hauth, hopen⟩ := hc
  by_contra hne
  rcases hs.others c hlt hne with hclosed | ⟨hunauth, -⟩
  · exact hopen hclosed
  · simp [hunauth] at hauth

/-- A step keeps the subscriptions, and then the registration unless it works for the registered
object; or it is a subscription call, which keeps the registration and works for the object that
every subscription belongs to. -/
theorem Sole.step_hub {a : Action} (h : Connect.step s a = some t) :
    (∀ ch, t.node.hub.lookupSubscriber ch s.sessionID =
        s.node.hub.lookupSubscriber ch s.sessionID) ∧
      (t.node.hub.sessions = s.node.hub.sessions ∨
        ∀ o, s.node.hub.lookupSession s.sessionID = some o → actor s a = some o) ∨
    t.node.hub.sessions = s.node.hub.sessions ∧ actor s a = cur := by
  have hsame (hhub : t.node.hub = s.node.hub) :
      (∀ ch, t.node.hub.lookupSubscriber ch s.sessionID =
          s.node.hub.lookupSubscriber ch s.sessionID) ∧
        (t.node.hub.sessions = s.node.hub.sessions ∨
          ∀ o, s.node.hub.lookupSession s.sessionID = some o → actor s a = some o) := by
    rw [hhub]
    exact ⟨fun _ => rfl, Or.inl rfl⟩
  cases a with
  | connect request =>
    cases h
    exact Or.inl (hsame rfl)
  | handler i ok =>
    obtain ⟨conn, hi, hh⟩ := bind_eq_some_iff.mp h
    have howned := hs.phases i conn hi
    left
    rcases handle_hub hh with hhub | ⟨⟨snapshot, hp⟩, hhub⟩ | ⟨hp, hhub⟩
    · exact hsame hhub
    · simp only [hp, Phase.Owned] at howned
      refine ⟨?_, Or.inr fun o ho => howned.symm.trans (hs.registered o ho)⟩
      intro ch
      rw [hhub]
      unfold add
      split_ifs <;> rfl
    · simp only [hp, Phase.Owned] at howned
      refine ⟨?_, Or.inr fun o ho => howned.symm.trans (hs.registered o ho)⟩
      intro ch
      rw [hhub]
      rfl
  | resume i outcome =>
    obtain ⟨conn, hi, hh⟩ := bind_eq_some_iff.mp h
    split_ifs at hh
    cases hh
    cases outcome <;> exact Or.inl (hsame rfl)
  | handlerClose i channels =>
    obtain ⟨conn, hi, hh⟩ := bind_eq_some_iff.mp h
    obtain ⟨request, phase⟩ := conn
    cases phase with
    | closeExisting _ | close _ =>
      obtain ⟨m, hm, rfl⟩ := map_eq_some_iff.mp hh
      have hhub := beginClose_hub hm
      exact Or.inl (hsame hhub)
    | _ => cases hh
  | close c channels =>
    simp only [Connect.step] at h
    split_ifs at h
    exact Or.inl (hsame (beginClose_hub h))
  | unregister c =>
    simp only [Connect.step] at h
    split at h
    · split_ifs at h
      cases h
      by_cases hmatch : s.node.hub.sessions.lookup s.sessionID = some c
      · left
        refine ⟨?_, Or.inr fun o ho => hmatch.symm.trans ho⟩
        intro ch
        show (s.node.hub.removeSessionIfMatches s.sessionID c).2.lookupSubscriber ch _ = _
        simp only [removeSessionIfMatches, hmatch, if_true]
        rfl
      · apply Or.inl (hsame _)
        show (s.node.hub.removeSessionIfMatches s.sessionID c).2 = _
        simp [removeSessionIfMatches, hmatch]
    · cases h
  | call k ok =>
    obtain ⟨u, hu, rfl⟩ := map_eq_some_iff.mp h
    obtain ⟨c, node, b, hk, -, hb, rfl⟩ := Calls.step_eq_some hu
    obtain ⟨hcur, hsub⟩ := hs.owns hk hb
    right
    refine ⟨?_, by simp [actor, hk, hcur]⟩
    rcases (SubCall.step_effect hsub hb).touches.hub with hhub | hhub | ⟨first, hhub⟩
    · exact congrArg sessions hhub
    · exact (congrArg sessions hhub).trans sessions_removeSub
    · exact sessions_addSub hhub

theorem Sole.oneObject : OneObject s where
  unique := by
    intro i j hi hj
    exact some.inj ((hs.unique hi).symm.trans (hs.unique hj))
  registrations := by
    intro a t h o ho hgone
    rcases hs.step_hub h with ⟨-, hsessions | hactor⟩ | ⟨hsessions, -⟩
    · exact absurd ((lookupSession_congr hsessions).trans ho) hgone
    · exact hactor o ho
    · exact absurd ((lookupSession_congr hsessions).trans ho) hgone
  subscriptions := by
    intro a t h ch r hr hgone
    rcases hs.step_hub h with ⟨hkept, -⟩ | ⟨-, hactor⟩
    · cases hgone.symm.trans ((hkept ch).trans hr)
    · exact hactor.trans (hs.records ch r hr)

end Steps

theorem sole_start {sessionID user ns : String} {node : Node}
    (hsession : node.hub.lookupSession sessionID = none)
    (hsubs : ∀ ch, node.hub.lookupSubscriber ch sessionID = none) :
    Sole (.start sessionID user ns node) none := by
  refine ⟨?_, ?_, ?_, ?_, ?_, ?_, ?_, ?_⟩
  · nofun
  · nofun
  · nofun
  · nofun
  · nofun
  · nofun
  · intro ch r hr
    cases (hsubs ch).symm.trans hr
  · intro o ho
    cases hsession.symm.trans ho

/-- In every run whose hub lookups miss only when nothing is left of an earlier object, one object
at a time carries the session. -/
theorem connect_oneObject {sessionID user ns : String} {node : Node} {as : List Action} {s : State}
    (hsession : node.hub.lookupSession sessionID = none)
    (hsubs : ∀ ch, node.hub.lookupSubscriber ch sessionID = none)
    (hrun : run (.start sessionID user ns node) as = some s)
    (hquiet : Transition.Along step MissesQuietly (.start sessionID user ns node) as) :
    OneObject s := by
  obtain ⟨cur, hs⟩ : ∃ cur, Sole s cur :=
    Transition.invariant_along (P := fun s => ∃ cur, Sole s cur)
      ⟨none, sole_start hsession hsubs⟩ (fun _ _ _ ⟨_, hs⟩ hq hstep => hs.step hq hstep) hrun hquiet
  exact hs.oneObject

section Schedules

def idleNode (clusterEnabled : Bool) : Node :=
  .new clusterEnabled fun _ => .newClient "" ⟨0, 0, .protobuf⟩

def fresh : State :=
  .start "s1" "u1" "ns" (idleNode false)

def NoMiss (s : State) : Action → Prop
  | .handler i _ =>
    (s.conns[i]?.map Conn.phase) ≠ some .lookup ∨
      s.node.hub.lookupSession s.sessionID ≠ none
  | _ => True

instance (s : State) (a : Action) : Decidable (NoMiss s a) := by
  unfold NoMiss
  split <;> infer_instance

theorem missesQuietly_of_noMiss (s : State) (a : Action) (h : NoMiss s a) : MissesQuietly s a := by
  cases a with
  | handler i ok =>
    intro hphase hnone
    rcases h with hp | hhit
    · exact absurd hphase hp
    · exact absurd hnone hhit
  | _ => trivial

def resumedConnect : List Action :=
  [.connect [("room", false)], .handler 0 true, .resume 0 .none, .handler 0 true, .handler 0 true,
    .handler 0 true, .handler 0 true, .handler 0 true, .handler 0 true, .handler 0 true,
    .call 0 true, .call 0 true, .call 0 true, .call 0 true, .call 0 true, .call 0 true,
    .handler 0 true, .handler 0 true, .connect [], .handler 1 true, .handler 1 true,
    .handler 1 true, .handler 1 true, .handler 1 true, .handler 1 true, .handler 1 true]

theorem quiet_first {request : Subscriptions} {s : State}
    (h : step fresh (.connect request) = some s) : Quiet s 0 := by
  cases h
  refine ⟨?_, ?_, ?_, ?_⟩
  · nofun
  · intro ch
    exact lookupSubscriber_empty ch "s1"
  · intro j conn hj hne
    have hnil : ([⟨request, .lookup⟩] : List Conn)[j]? = none := by
      rw [getElem?_eq_none_iff]
      exact Nat.one_le_iff_ne_zero.mpr hne
    cases hnil.symm.trans hj
  · intro j hj hne
    exact absurd (Nat.lt_one_iff.mp hj) hne

theorem connect_oneObject_resumed :
    ∃ s, run fresh resumedConnect = some s ∧ OneObject s ∧ OpenAuthenticated s 0 := by
  refine ⟨_, rfl, ?_, ?_⟩
  · refine connect_oneObject rfl (fun ch => lookupSubscriber_empty ch "s1")
      (rfl : run fresh resumedConnect = _) ?_
    refine ⟨trivial, fun s hs => ⟨fun _ _ => quiet_first hs, fun t ht => ?_⟩⟩
    cases hs
    cases ht
    exact Transition.along_mono step missesQuietly_of_noMiss (by decide)
  · decide

def clusterFresh : State :=
  .start "s1" "u1" "ns" (idleNode true)

/-- Two Connects both miss the hub lookup. Both become open, authenticated objects; the one that
registers first fails its sync and takes the registration of the other out of the hub. -/
theorem connect_two_objects :
    ∃ s t, run clusterFresh [.connect [], .connect [], .handler 0 true, .handler 1 true,
        .resume 0 .none, .resume 1 .none, .handler 0 true, .handler 0 true, .handler 0 true,
        .handler 1 true, .handler 1 true, .handler 1 true, .handler 1 true, .handler 0 true,
        .handler 1 false] = some s ∧
      step s (.handler 1 true) = some t ∧
      OpenAuthenticated s 0 ∧ OpenAuthenticated s 1 ∧
      s.node.hub.lookupSession "s1" = some 0 ∧ t.node.hub.lookupSession "s1" = none ∧
      ¬ OneObject s := by
  refine ⟨_, _, rfl, rfl, by decide, by decide, by decide, by decide, ?_⟩
  intro hone
  exact absurd (hone.unique 0 1 (by decide) (by decide)) (by decide)

end Schedules

end MessageLoop.Connect
