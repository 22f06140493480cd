import MessageLoop.Runtime.SubscriptionCalls
import MessageLoop.Session.Namespace

/-!
When sessions stay in their namespace: subscription keys and deliveries.

Every path on which a session subscribes compares the namespaces, but for the command of the Server
API.
-/

namespace MessageLoop.Namespace

open Topics List Option Function Finset Node Hub

variable {next c : SessionRef} {n t : Node} {key ns ch : String} {cfg : Config} {ok first : Bool}
variable {sub : Subscriber} {s : Session} {loose : SessionRef → Prop} {adds : Prop}

def Records (h : Hub) (c : SessionRef) (key : String) : Prop :=
  (∃ sid sub, (h.subs key).lookup sid = some sub ∧ sub.session = c) ∨
    ∃ id sub, h.wcSubs.lookup id = some (key, sub) ∧ sub.session = c

/-- A key is held in the hub, and in the set of a session that is not closed. -/
def Holds (n : Node) (c : SessionRef) (key : String) : Prop :=
  Records n.hub c key ∨ ((n.sessions c).state ≠ .closed ∧ key ∈ n.tracked c)

/-- The keys of a session are keys of its namespace, and so are the channels whose publications it
is sent. -/
structure Confined (s : State) : Prop where
  keys : ∀ k c key, Holds (s.node k) c key →
    namespaceOf key = .ok ((s.node k).sessions c).ns
  deliveries : ∀ k channel c, validateChannel channel = .ok () →
    c ∈ getMatchingSubscribers (s.node k).hub channel →
    namespaceOf channel = .ok ((s.node k).sessions c).ns

/-- A Server API command subscribes a session to a channel of the session's namespace. -/
def InNamespace (s : State) : Action → Prop
  | .apiSubscribe k _ sessionID channel _ =>
    ∀ c, (s.node k).hub.lookupSession sessionID = some c →
      namespaceOf channel = .ok ((s.node k).sessions c).ns
  | _ => True

section Hub
variable {h h' : Hub} {sid : String}

def Keyed (h : Hub) : Prop :=
  ∀ id key sub, h.wcSubs.lookup id = some (key, sub) → ∃ sid, id = wildcardKey sid key

theorem records_addSub (hadd : h.addSub ch sid sub = .ok (first, h')) (hr : Records h' c key) :
    Records h c key ∨ (c = sub.session ∧ key = ch) := by
  unfold Hub.addSub at hadd
  split_ifs at hadd <;> cases hadd
  · exact .inl hr
  · rcases hr with hr | ⟨id, r, hr, hc⟩
    · exact .inl (.inl hr)
    · by_cases hid : id = wildcardKey sid ch
      · subst hid
        rw [Finmap.lookup_insert] at hr
        cases hr
        exact .inr ⟨hc.symm, rfl⟩
      · rw [Finmap.lookup_insert_of_ne _ hid] at hr
        exact .inl (.inr ⟨id, r, hr, hc⟩)
  · rcases hr with ⟨x, r, hr, hc⟩ | hr
    · by_cases hkey : key = ch
      · subst hkey
        simp only [update_self] at hr
        by_cases hx : x = sid
        · subst hx
          rw [Finmap.lookup_insert] at hr
          cases hr
          exact .inr ⟨hc.symm, rfl⟩
        · rw [Finmap.lookup_insert_of_ne _ hx] at hr
          exact .inl (.inl ⟨x, r, hr, hc⟩)
      · simp only [update_of_ne hkey] at hr
        exact .inl (.inl ⟨x, r, hr, hc⟩)
    · exact .inl (.inr hr)

theorem keyed_addSub (hkeyed : Keyed h) (hadd : h.addSub ch sid sub = .ok (first, h')) :
    Keyed h' := by
  unfold Hub.addSub at hadd
  split_ifs at hadd <;> cases hadd
  · exact hkeyed
  · intro id key r
    exact Finmap.forall_lookup_insert
      (P := fun id (r : String × Subscriber) => ∃ sid, id = wildcardKey sid r.1) ⟨sid, rfl⟩
      (fun id r => hkeyed id r.1 r.2) id (key, r)
  · exact hkeyed

theorem records_removeSub (hr : Records (h.removeSub ch sid).2.2 c key) : Records h c key := by
  unfold Hub.removeSub at hr
  split_ifs at hr
  · rcases hr with hr | ⟨id, r, hr, hc⟩
    · exact .inl hr
    · exact .inr ⟨id, r, Finmap.lookup_of_erase hr, hc⟩
  · exact hr
  · rcases hr with ⟨x, r, hr, hc⟩ | hr
    · by_cases hkey : key = ch
      · subst hkey
        simp only [update_self] at hr
        exact .inl ⟨x, r, Finmap.lookup_of_erase hr, hc⟩
      · simp only [update_of_ne hkey] at hr
        exact .inl ⟨x, r, hr, hc⟩
    · exact .inr hr
  · exact hr

theorem keyed_removeSub (hkeyed : Keyed h) : Keyed (h.removeSub ch sid).2.2 := by
  unfold Hub.removeSub
  split_ifs
  · intro id key r hr
    exact hkeyed id key r (Finmap.lookup_of_erase hr)
  · exact hkeyed
  · exact hkeyed
  · exact hkeyed

theorem records_of_lookupSubscriber (hkeyed : Keyed h) (hkey : namespaceOf key = .ok ns)
    (hnamed : ∀ c key, Records h c key → ∃ ns, namespaceOf key = .ok ns)
    (hlookup : h.lookupSubscriber key sid = some sub) : Records h sub.session key := by
  unfold Hub.lookupSubscriber at hlookup
  split_ifs at hlookup
  · obtain ⟨⟨pattern, r⟩, hr, rfl⟩ := map_eq_some_iff.mp hlookup
    obtain ⟨sid', hid⟩ := hkeyed _ _ _ hr
    obtain ⟨ns', hns'⟩ := hnamed r.session pattern (.inr ⟨_, r, hr, rfl⟩)
    obtain ⟨-, rfl⟩ := wildcardKey_inj_of_namespaceOf hkey hns' hid
    exact .inr ⟨_, r, hr, rfl⟩
  · exact .inl ⟨sid, sub, hlookup, rfl⟩

theorem mem_getMatchingSubscribers (hmem : c ∈ getMatchingSubscribers h ch) :
    ∃ key, Records h c key ∧ (key = ch ∨ matchCriteria key ch = true) := by
  rcases mem_union.mp hmem with hmem | hmem
  · obtain ⟨sid, -, hsid⟩ := mem_biUnion.mp hmem
    obtain ⟨sub, hsub, hc⟩ := map_eq_some_iff.mp (mem_toFinset.mp hsid)
    exact ⟨ch, .inl ⟨sid, sub, hsub, hc⟩, .inl rfl⟩
  · obtain ⟨id, -, hid⟩ := mem_biUnion.mp hmem
    obtain ⟨⟨key, sub⟩, hsub, hc⟩ := map_eq_some_iff.mp (mem_toFinset.mp hid)
    obtain ⟨hlookup, hmatch⟩ := filter_eq_some_iff.mp hsub
    exact ⟨key, .inr ⟨id, sub, hlookup, hc⟩, .inr hmatch⟩

end Hub

section Extends
variable {k : SagaStep}

/-- All that calls about one key of a session can do: the key is new in its set, in the snapshots
stored for it and, if they add, in the hub. -/
structure Extends (adds : Prop) (c : SessionRef) (key : String) (n t : Node) : Prop where
  sessions : ∀ x, t.sessions x = { n.sessions x with subscribedChannels := t.tracked x }
  tracked : ∀ x, ∀ y ∈ t.tracked x, y ∈ n.tracked x ∨ (x = c ∧ y = key)
  registry : t.hub.sessions = n.hub.sessions
  records : ∀ x y, Records t.hub x y → Records n.hub x y ∨ (adds ∧ x = c ∧ y = key)
  keyed : Keyed n.hub → Keyed t.hub
  snapshots : ∀ sid snapshot, t.snapshots sid = some snapshot →
    n.snapshots sid = some snapshot ∨ ∀ y ∈ snapshot.channels, y ∈ n.tracked c ∨ y = key

variable {u : Node}
variable {undone flag : Bool}

theorem Extends.refl : Extends adds c key n n :=
  ⟨fun _ => rfl, fun _ _ => .inl, rfl, fun _ _ => .inl, id, fun _ _ => .inl⟩

theorem Extends.setHub (h : Extends adds c key n t) {hub : Hub}
    (hregistry : hub.sessions = t.hub.sessions)
    (hrecords : ∀ x y, Records hub x y →
      Records t.hub x y ∨ Records n.hub x y ∨ (adds ∧ x = c ∧ y = key))
    (hkeyed : Keyed t.hub → Keyed hub) : Extends adds c key n (t.setHub hub) where
  sessions := h.sessions
  tracked := h.tracked
  registry := hregistry.trans h.registry
  records := fun x y hr => (hrecords x y hr).elim (h.records x y) id
  keyed := fun hn => hkeyed (h.keyed hn)
  snapshots := h.snapshots

theorem Extends.addSub (h : Extends True c key n t) (hsub : sub.session = c)
    (hadd : t.addSub key sub = .ok (first, u)) : Extends True c key n u := by
  obtain ⟨hub, hhub, rfl⟩ := addSub_eq_ok hadd
  refine h.setHub (sessions_addSub hhub) (fun x y hr => ?_) (keyed_addSub · hhub)
  rcases records_addSub hhub hr with hr | ⟨rfl, rfl⟩
  · exact .inl hr
  · exact .inr (.inr ⟨trivial, hsub, rfl⟩)

section
variable (h : Extends adds c key n t)
include h

theorem Extends.removeSub (x : SessionRef) :
    Extends adds c key n (t.removeSub key x).2.2 :=
  h.setHub sessions_removeSub (fun _ _ hr => .inl (records_removeSub hr)) keyed_removeSub

theorem Extends.readdSub (hrecord : Records n.hub sub.session key) :
    Extends adds c key n (t.readdSub key sub) := by
  unfold Node.readdSub readd
  cases hhub : t.hub.addSub key (t.sessionID sub.session) sub with
  | error e => exact h
  | ok r =>
    refine h.setHub (sessions_addSub hhub) (fun x y hr => ?_) (keyed_addSub · hhub)
    rcases records_addSub hhub hr with hr | ⟨rfl, rfl⟩
    · exact .inl hr
    · exact .inr (.inl hrecord)

theorem Extends.setTracked {channels : Finset String}
    (hchannels : ∀ y ∈ channels, y ∈ t.tracked c ∨ y = key) :
    Extends adds c key n
      (t.setSession c { t.sessions c with subscribedChannels := channels }) := by
  refine { h with sessions := fun x => ?_, tracked := fun x y hy => ?_ }
  · by_cases hx : x = c
    · subst hx
      simp only [Node.tracked, setSession_sessions, update_self]
      rw [h.sessions x]
    · simp only [setSession_sessions, Node.tracked, update_of_ne hx]
      exact h.sessions x
  · by_cases hx : x = c
    · subst hx
      simp only [Node.tracked, setSession_sessions, update_self] at hy
      rcases hchannels y hy with hy | rfl
      · exact h.tracked x y hy
      · exact .inr ⟨rfl, rfl⟩
    · simp only [Node.tracked, setSession_sessions, update_of_ne hx] at hy
      exact h.tracked x y hy

theorem Extends.forceTrackChannel :
    Extends adds c key n (t.forceTrackChannel c key) :=
  h.setTracked fun _ hy => (mem_insert.mp hy).symm

theorem Extends.untrackChannel :
    Extends adds c key n (t.untrackChannel c key) :=
  h.setTracked fun _ hy => .inl (mem_of_mem_erase hy)

theorem Extends.brokerSubscribe
    (ht : t.brokerSubscribe key ok = some u) : Extends adds c key n u := by
  cases ok <;> cases ht
  exact { h with }

theorem Extends.brokerUnsubscribe
    (ht : t.brokerUnsubscribe key ok = some u) : Extends adds c key n u := by
  cases ok <;> cases ht
  exact { h with }

theorem Extends.adjust {delta : Int}
    (ht : t.adjustClusterChannelSubscriptions key delta ok = some u) : Extends adds c key n u := by
  unfold adjustClusterChannelSubscriptions at ht
  split_ifs at ht <;> cases ht
  · exact { h with }
  · exact h

end

theorem channels_clusterSessionSnapshot : (n.clusterSessionSnapshot c).channels = n.tracked c := by
  simp [SessionSnapshot.channels, clusterSessionSnapshot, image_image,
    comp_def, tracked]

theorem Extends.sync (h : Extends adds c key n t)
    (ht : t.syncClusterSessionState c ok = some u) : Extends adds c key n u := by
  unfold syncClusterSessionState at ht
  split_ifs at ht <;> cases ht
  · refine { h with snapshots := fun sid snapshot hs => ?_ }
    by_cases hsid : sid = t.sessionID c
    · subst hsid
      simp only [setSnapshot_snapshots, update_self, some.injEq] at hs
      subst hs
      right
      intro y hy
      rw [channels_clusterSessionSnapshot] at hy
      exact (h.tracked c y hy).imp id And.right
    · simp only [setSnapshot_snapshots, update_of_ne hsid] at hs
      exact h.snapshots sid snapshot hs
  · exact h

theorem Extends.getD {r : Option Node} (h : Extends adds c key n t)
    (hr : ∀ u, r = some u → Extends adds c key n u) : Extends adds c key n (r.getD t) := by
  cases r with
  | none => exact h
  | some u => exact hr u rfl

theorem extends_addCommits {flag' : Bool} (hsub : sub.session = c) (h : Extends True c key n t)
    (hu : AddCommits t key sub k ok flag u flag') :
    Extends True c key n u := by
  subst hsub
  cases hu with
  | hub hadd => exact h.addSub rfl hadd
  | client _ => exact h.forceTrackChannel
  | brokerKept => exact h
  | broker => exact { h with }
  | session hsync => exact h.sync hsync
  | channel hadjust => exact h.adjust hadjust

theorem extends_addStep_rollback (hsub : sub.session = c) (h : Extends True c key n t) :
    Extends True c key n ((addStep key sub ok undone k).rollback (t, flag)).1 := by
  subst hsub
  cases k with
  | hub => exact h.removeSub sub.session
  | client => exact h.untrackChannel
  | broker =>
    cases flag with
    | false => exact h
    | true => exact h.getD fun _ => h.brokerUnsubscribe
  | session => exact h.getD fun _ => h.sync
  | channel => exact h.getD fun _ => h.adjust

theorem extends_removeCommits {flag' : Bool} (h : Extends adds c key n t)
    (hu : RemoveCommits t key c k ok flag u flag') : Extends adds c key n u := by
  cases hu with
  | hub hremove =>
    have hm : (t.removeSub key c).2.2 = u := by rw [hremove]
    exact hm ▸ h.removeSub c
  | client => exact h.untrackChannel
  | brokerKept => exact h
  | broker => exact { h with }
  | session hsync => exact h.sync hsync
  | channel hadjust => exact h.adjust hadjust

theorem extends_removeStep_rollback (hrecord : Records n.hub sub.session key)
    (h : Extends adds c key n t) :
    Extends adds c key n ((removeStep key c sub ok undone k).rollback (t, flag)).1 := by
  cases k with
  | hub => exact h.readdSub hrecord
  | client => exact h.forceTrackChannel
  | broker =>
    cases flag with
    | false => exact h
    | true => exact h.getD fun _ => h.brokerSubscribe
  | session => exact h.getD fun _ => h.sync
  | channel => exact h.getD fun _ => h.adjust

theorem extends_addSubscription (n : Node) (c : SessionRef) (key : String) (e : Bool)
    (out : Outcomes) : Extends True c key n (addSubscription n key (newSubscriber c e) out).1 := by
  unfold addSubscription
  split
  · exact .refl
  · exact Saga.run_invariant (P := fun m : Node × Bool => Extends True c key n m.1)
      (forall_mem_map.mpr fun _ _ _ _ hs ht => extends_addCommits rfl hs (addStep_commits ht))
      (forall_mem_map.mpr fun _ _ _ hs => extends_addStep_rollback rfl hs) .refl

theorem extends_removeSubscription (out : Outcomes)
    (hrecord : ∀ sub, n.lookupSubscriber key c = some sub → Records n.hub sub.session key) :
    Extends False c key n (removeSubscription n key c out).1 := by
  unfold removeSubscription
  split
  · exact .refl
  · next sub hlookup =>
    exact Saga.run_invariant (P := fun m : Node × Bool => Extends False c key n m.1)
      (forall_mem_map.mpr fun _ _ _ _ hs ht => extends_removeCommits hs (removeStep_commits ht))
      (forall_mem_map.mpr fun _ _ _ hs => extends_removeStep_rollback (hrecord sub hlookup) hs) .refl

theorem Extends.removeLocalSubscriptionOnly (h : Extends adds c key n t) :
    Extends adds c key n (t.removeLocalSubscriptionOnly key c ok).2.2 := by
  unfold Node.removeLocalSubscriptionOnly
  have hremove := (h.removeSub c).untrackChannel
  rcases hsub : t.removeSub key c with ⟨last, removed, m⟩
  rw [hsub] at hremove
  cases removed with
  | false => exact h
  | true =>
    cases last with
    | false => exact hremove
    | true =>
      cases ok with
      | false => exact hremove
      | true => exact { hremove with }

theorem extends_restoreLocalSubscription (n : Node) (c : SessionRef) (key : String) (e ok : Bool) :
    Extends True c key n (n.restoreLocalSubscription key (newSubscriber c e) ok).2 := by
  unfold restoreLocalSubscription
  split
  · exact .refl
  · cases hadd : n.addSub key (newSubscriber c e) with
    | error e => exact .refl
    | ok r =>
      obtain ⟨first, t⟩ := r
      have ht : Extends True c key n t := Extends.refl.addSub rfl hadd
      cases first with
      | false => exact ht.forceTrackChannel
      | true =>
        cases ok with
        | false => exact ht.removeSub c
        | true => exact Extends.forceTrackChannel { ht with }

end Extends

section Scoped

/-- What holds of a node in every state. The set of a `loose` session, one whose Connect is adopting
a snapshot, may hold keys of other namespaces. -/
structure Scoped (loose : SessionRef → Prop) (next : SessionRef) (n : Node) : Prop where
  records : ∀ c key, Records n.hub c key → namespaceOf key = .ok (n.sessions c).ns
  keyed : Keyed n.hub
  tracked : ∀ c, ¬ loose c → (n.sessions c).state ≠ .closed →
    ∀ key ∈ n.tracked c, namespaceOf key = .ok (n.sessions c).ns
  named : ∀ c, ∀ key ∈ n.tracked c, ∃ ns, namespaceOf key = .ok ns
  stored : ∀ sid snapshot, n.snapshots sid = some snapshot →
    ∀ key ∈ snapshot.channels, ∃ ns, namespaceOf key = .ok ns
  resolved : ∀ c, (n.sessions c).authenticated = true → (n.sessions c).ns ≠ ""
  unrecorded : ∀ c, (n.sessions c).authenticated = false → ∀ key, ¬ Records n.hub c key
  idle : ∀ c, (n.sessions c).authenticated = false → ¬ loose c → (n.sessions c).state ≠ .closed →
    n.tracked c = ∅
  registered : ∀ sid c, n.hub.lookupSession sid = some c → (n.sessions c).authenticated = true
  delegates : ∀ c e, (n.sessions c).delegate = some e → (n.sessions e).authenticated = true
  created : ∀ c, (n.sessions c).authenticated = true → c < next

abbrev Settled : SessionRef → Node → Prop :=
  Scoped fun _ => False

variable {loose' : SessionRef → Prop}

theorem Scoped.mono (hs : Scoped loose next n) (h : ∀ x, loose x → loose' x) :
    Scoped loose' next n :=
  { hs with
    tracked := fun x hx => hs.tracked x fun hl => hx (h x hl)
    idle := fun x hauth hx => hs.idle x hauth fun hl => hx (h x hl) }

theorem Scoped.loosen (hs : Settled next n) : Scoped (· = c) next n :=
  hs.mono fun _ => False.elim

theorem Scoped.tighten (hs : Scoped (· = c) next n) (hauth : (n.sessions c).authenticated = true)
    (htracked : ∀ key ∈ n.tracked c, namespaceOf key = .ok (n.sessions c).ns) : Settled next n :=
  { hs with
    tracked := by
      intro x _ hopen
      by_cases hx : x = c
      · subst hx
        exact htracked
      · exact hs.tracked x hx hopen
    idle := by
      intro x hx _ hopen
      have hne : x ≠ c := by
        rintro rfl
        rw [hauth] at hx
        cases hx
      exact hs.idle x hx hne hopen }

section
variable (hs : Scoped loose next n)
include hs

theorem Scoped.extends_of (he : Extends adds c key n t)
    (hauth : (n.sessions c).authenticated = false → ¬ adds ∧ (n.sessions c).state = .closed)
    (hadds : adds → namespaceOf key = .ok (n.sessions c).ns)
    (htracked : ¬ loose c → (n.sessions c).state ≠ .closed →
      namespaceOf key = .ok (n.sessions c).ns) (hnamed : ∃ ns, namespaceOf key = .ok ns) :
    Scoped loose next t where
  records := by
    intro x y hr
    rw [he.sessions x]
    rcases he.records x y hr with hr | ⟨hadd, rfl, rfl⟩
    · exact hs.records x y hr
    · exact hadds hadd
  keyed := he.keyed hs.keyed
  tracked := by
    intro x hx hopen y hy
    rw [he.sessions x] at hopen ⊢
    rcases he.tracked x y hy with hy | ⟨rfl, rfl⟩
    · exact hs.tracked x hx hopen y hy
    · exact htracked hx hopen
  named := by
    intro x y hy
    rcases he.tracked x y hy with hy | ⟨rfl, rfl⟩
    · exact hs.named x y hy
    · exact hnamed
  stored := by
    intro sid snapshot hsnapshot y hy
    rcases he.snapshots sid snapshot hsnapshot with hold | hnew
    · exact hs.stored sid snapshot hold y hy
    · rcases hnew y hy with hy | rfl
      · exact hs.named c y hy
      · exact hnamed
  resolved := by
    intro x hx
    rw [he.sessions x] at hx ⊢
    exact hs.resolved x hx
  unrecorded := by
    intro x hx y hr
    rw [he.sessions x] at hx
    rcases he.records x y hr with hr | ⟨hadd, rfl, -⟩
    · exact hs.unrecorded x hx y hr
    · exact absurd hadd (hauth hx).1
  idle := by
    intro x hx hloose hopen
    rw [he.sessions x] at hx hopen
    apply eq_empty_of_forall_notMem
    intro y hy
    rcases he.tracked x y hy with hy | ⟨rfl, -⟩
    · rw [hs.idle x hx hloose hopen] at hy
      cases hy
    · exact absurd (hauth hx).2 hopen
  registered := by
    intro sid x hx
    rw [he.sessions x]
    exact hs.registered sid x (by rwa [lookupSession, he.registry] at hx)
  delegates := by
    intro x e hdelegate
    rw [he.sessions x] at hdelegate
    rw [he.sessions e]
    exact hs.delegates x e hdelegate
  created := by
    intro x hx
    rw [he.sessions x] at hx
    exact hs.created x hx

theorem Scoped.extends (he : Extends adds c key n t) (hauth : (n.sessions c).authenticated = true)
    (hadds : adds → namespaceOf key = .ok (n.sessions c).ns)
    (htracked : ¬ loose c → (n.sessions c).state ≠ .closed →
      namespaceOf key = .ok (n.sessions c).ns) (hnamed : ∃ ns, namespaceOf key = .ok ns) :
    Scoped loose next t := by
  refine hs.extends_of he (fun h => ?_) hadds htracked hnamed
  rw [hauth] at h
  cases h

theorem Scoped.mono_next {next' : SessionRef} (h : next ≤ next') :
    Scoped loose next' n :=
  { hs with created := fun c hc => (hs.created c hc).trans_le h }

theorem Scoped.setSession (hloose : ∀ x, x ≠ c → loose x → loose' x)
    (hns : s.ns = (n.sessions c).ns ∨ ∀ key, ¬ Records n.hub c key)
    (htracked : ¬ loose' c → s.state ≠ .closed →
      ∀ key ∈ s.subscribedChannels, namespaceOf key = .ok s.ns)
    (hnamed : ∀ key ∈ s.subscribedChannels, ∃ ns, namespaceOf key = .ok ns)
    (hauth : (n.sessions c).authenticated = true → s.authenticated = true)
    (hnew : s.authenticated = true → s.ns ≠ "" ∧ c < next)
    (hidle : s.authenticated = false → ¬ loose' c → s.state ≠ .closed → s.subscribedChannels = ∅)
    (hdelegate : ∀ e, s.delegate = some e → (n.sessions e).authenticated = true) :
    Scoped loose' next (n.setSession c s) := by
  have hother : ∀ x, x ≠ c → (n.setSession c s).sessions x = n.sessions x := fun x hx => by
    simp [hx]
  have hself : (n.setSession c s).sessions c = s := by simp
  have hkept : ∀ x, (n.sessions x).authenticated = true →
      ((n.setSession c s).sessions x).authenticated = true := by
    intro x hx
    by_cases hxc : x = c
    · subst hxc
      rw [hself]
      exact hauth hx
    · rwa [hother x hxc]
  have hold : ∀ x, x ≠ c → ¬ loose' x → ¬ loose x := fun x hx hl hlx => hl (hloose x hx hlx)
  refine ⟨fun x y hr => ?_, hs.keyed, fun x hl hopen y hy => ?_, fun x y hy => ?_, hs.stored,
    fun x hx => ?_, fun x hx y hr => ?_, fun x hx hl hopen => ?_,
    fun sid x hx => hkept x (hs.registered sid x hx), fun x e he => ?_, fun x hx => ?_⟩
  all_goals
    rcases eq_or_ne x c with rfl | hxc
    on_goal 1 => simp only [Node.tracked, hself] at *
    on_goal 2 => simp only [Node.tracked, hother x hxc] at *
  · rcases hns with hns | hnone
    · rw [hns]
      exact hs.records x y hr
    · exact absurd hr (hnone y)
  · exact hs.records x y hr
  · exact htracked hl hopen y hy
  · exact hs.tracked x (hold x hxc hl) hopen y hy
  · exact hnamed y hy
  · exact hs.named x y hy
  · exact (hnew hx).1
  · exact hs.resolved x hx
  · refine hs.unrecorded x ?_ y hr
    cases hb : (n.sessions x).authenticated with
    | false => rfl
    | true =>
      rw [hauth hb] at hx
      cases hx
  · exact hs.unrecorded x hx y hr
  · exact hidle hx hl hopen
  · exact hs.idle x hx (hold x hxc hl) hopen
  · exact hkept e (hdelegate e he)
  · exact hkept e (hs.delegates x e he)
  · exact (hnew hx).2
  · exact hs.created x hx

theorem Scoped.update (hns : s.ns = (n.sessions c).ns)
    (hauth : s.authenticated = (n.sessions c).authenticated)
    (hchannels : s.subscribedChannels = n.tracked c)
    (hstate : s.state ≠ .closed → (n.sessions c).state ≠ .closed)
    (hdelegate : ∀ e, s.delegate = some e → (n.sessions e).authenticated = true) :
    Scoped loose next (n.setSession c s) := by
  refine hs.setSession (fun _ _ => id) (.inl hns) ?_ ?_ (fun h => hauth.trans h) ?_ ?_ hdelegate
  · intro hl hopen key hkey
    rw [hns]
    exact hs.tracked c hl (hstate hopen) key (hchannels ▸ hkey)
  · intro key hkey
    exact hs.named c key (hchannels ▸ hkey)
  · intro h
    rw [hns]
    exact ⟨hs.resolved c (hauth ▸ h), hs.created c (hauth ▸ h)⟩
  · intro h hl hopen
    rw [hchannels]
    exact hs.idle c (hauth ▸ h) hl (hstate hopen)

end

theorem Scoped.close (hs : Scoped (· = c) next n) : Settled next (close n c) := by
  refine hs.setSession (fun x hx h => absurd h hx) (.inl rfl) ?_ (hs.named c) id ?_ ?_
    (hs.delegates c)
  · intro _ hopen
    exact absurd rfl hopen
  · intro h
    exact ⟨hs.resolved c h, hs.created c h⟩
  · intro _ _ hopen
    exact absurd rfl hopen

theorem Scoped.setHub (hs : Scoped loose next n) {hub : Hub} (hsubs : hub.subs = n.hub.subs)
    (hwcSubs : hub.wcSubs = n.hub.wcSubs)
    (hregistered : ∀ sid c, hub.lookupSession sid = some c → (n.sessions c).authenticated = true) :
    Scoped loose next (n.setHub hub) := by
  have hrecords : ∀ x y, Records hub x y → Records n.hub x y := by
    intro x y hr
    rwa [Records, hsubs, hwcSubs] at hr
  exact { hs with
    records := fun x y hr => hs.records x y (hrecords x y hr)
    keyed := fun id y sub hr => hs.keyed id y sub (by rwa [setHub_hub, hwcSubs] at hr)
    unrecorded := fun x hx y hr => hs.unrecorded x hx y (hrecords x y hr)
    registered := hregistered }

theorem Scoped.sync (hs : Scoped loose next n) (ht : n.syncClusterSessionState c ok = some t) :
    Scoped loose next t ∧ t.sessions = n.sessions := by
  unfold syncClusterSessionState at ht
  split_ifs at ht <;> cases ht
  · refine ⟨{ hs with stored := ?_ }, rfl⟩
    intro sid snapshot hsnapshot y hy
    by_cases hsid : sid = n.sessionID c
    · subst hsid
      simp only [setSnapshot_snapshots, update_self, some.injEq] at hsnapshot
      subst hsnapshot
      rw [channels_clusterSessionSnapshot] at hy
      exact hs.named c y hy
    · simp only [setSnapshot_snapshots, update_of_ne hsid] at hsnapshot
      exact hs.stored sid snapshot hsnapshot y hy
  · exact ⟨hs, rfl⟩

end Scoped

section Handlers

theorem namespaceOf_of_checkNamespace (hns : s.ns ≠ "")
    (h : (checkNamespace s key).isOk = true) : namespaceOf key = .ok s.ns := by
  unfold checkNamespace at h
  rw [if_neg hns] at h
  split_ifs at h with hkey
  · exact hkey
  · cases h

theorem checkNamespace_of_checkSubscribeACL {sub : Request}
    (h : checkSubscribeACL cfg s sub = .ok ()) : (checkNamespace s sub.channel).isOk = true := by
  unfold checkSubscribeACL at h
  cases hcheck : checkNamespace s sub.channel with
  | error e => simp [hcheck] at h
  | ok u => rfl

section
variable (hs : Scoped loose next n)
include hs

theorem extends_removeSubscription_of_scoped (c : SessionRef) (out : Outcomes)
    (hkey : ∃ ns, namespaceOf key = .ok ns) :
    Extends False c key n (removeSubscription n key c out).1 := by
  obtain ⟨ns, hns⟩ := hkey
  apply extends_removeSubscription
  intro sub hlookup
  exact records_of_lookupSubscriber hs.keyed hns (fun x y hr => ⟨_, hs.records x y hr⟩) hlookup

theorem removeSubscription_empty (out : Outcomes) : (removeSubscription n "" c out).1 = n := by
  unfold removeSubscription
  cases hlookup : n.lookupSubscriber "" c with
  | none => rfl
  | some sub =>
    have hrecord : Records n.hub sub.session "" := .inl ⟨_, sub, hlookup, rfl⟩
    exact absurd (hs.records _ _ hrecord) (by rintro ⟨⟩)

variable (hauth : (n.sessions c).authenticated = true)
include hauth

theorem scoped_addSubscription (e : Bool) (out : Outcomes)
    (hkey : namespaceOf key = .ok (n.sessions c).ns) :
    Scoped loose next (addSubscription n key (newSubscriber c e) out).1 :=
  hs.extends (extends_addSubscription n c key e out) hauth (fun _ => hkey) (fun _ _ => hkey)
    ⟨_, hkey⟩

theorem scoped_removeSubscription (out : Outcomes) (hnamed : ∃ ns, namespaceOf key = .ok ns)
    (hkey : (n.sessions c).state ≠ .closed → namespaceOf key = .ok (n.sessions c).ns) :
    Scoped loose next (removeSubscription n key c out).1 :=
  hs.extends (extends_removeSubscription_of_scoped hs c out hnamed) hauth False.elim
    (fun _ => hkey) hnamed

theorem scoped_removeEach {channels : List (String × Outcomes)}
    (hchannels : ∀ r ∈ channels, r.1 = "" ∨ namespaceOf r.1 = .ok (n.sessions c).ns) :
    Scoped loose next (removeEach c n channels) := by
  induction channels generalizing n with
  | nil => exact hs
  | cons r channels ih =>
    have hrest := fun other hother => hchannels other (mem_cons_of_mem r hother)
    rcases hchannels r mem_cons_self with hempty | hr
    · have hstep : removeEach c n (r :: channels) = removeEach c n channels := by
        simp only [removeEach, foldl_cons, hempty, removeSubscription_empty hs]
      rw [hstep]
      exact ih hs hauth hrest
    · have hsame := (extends_removeSubscription_of_scoped hs c r.2 ⟨_, hr⟩).sessions c
      refine ih (scoped_removeSubscription hs hauth r.2 ⟨_, hr⟩ fun _ => hr) ?_ ?_
      · rw [hsame]
        exact hauth
      · rw [hsame]
        exact hrest

theorem scoped_subscribeEach (cfg : Config) (undoAtLimit : Bool) (subs : List Request)
    (added : List (String × Outcomes))
    (hadded : ∀ r ∈ added, namespaceOf r.1 = .ok (n.sessions c).ns) :
    Scoped loose next (subscribeEach cfg c undoAtLimit (fun _ _ _ => id) n subs added ()).1 := by
  induction subs generalizing n added with
  | nil => exact hs
  | cons sub subs ih =>
    rw [subscribeEach]
    cases hacl : checkSubscribeACL cfg (n.sessions c) sub with
    | error e => exact ih hs hauth added hadded
    | ok u =>
      have hkey : namespaceOf sub.channel = .ok (n.sessions c).ns :=
        namespaceOf_of_checkNamespace (hs.resolved c hauth)
          (checkNamespace_of_checkSubscribeACL hacl)
      have hundo : ∀ t, Scoped loose next t → (t.sessions c).authenticated = true →
          (∀ r ∈ added, namespaceOf r.1 = .ok (t.sessions c).ns) →
          Scoped loose next (removeEach c t added) :=
        fun t ht hauth hadded => scoped_removeEach ht hauth fun r hr => .inr (hadded r hr)
      simp only
      split
      · cases undoAtLimit with
        | false => exact hs
        | true => exact hundo n hs hauth hadded
      · have hadd := scoped_addSubscription hs hauth sub.ephemeral sub.add hkey
        have hsame := (extends_addSubscription n c sub.channel sub.ephemeral sub.add).sessions c
        rcases hresult : addSubscription n sub.channel (newSubscriber c sub.ephemeral) sub.add with
          ⟨t, err⟩
        rw [hresult] at hadd hsame
        have hauth' : (t.sessions c).authenticated = true := by
          rw [hsame]
          exact hauth
        have hns : (t.sessions c).ns = (n.sessions c).ns := by rw [hsame]
        cases err with
        | none =>
          refine ih hadd hauth' _ ?_
          rw [hns]
          split_ifs
          · exact hadded
          · exact forall_mem_snoc hadded hkey
        | some err =>
          dsimp only
          split
          · exact ih hadd hauth' added (hns ▸ hadded)
          · exact hundo t hadd hauth' (hns ▸ hadded)

end

theorem settled_close_if {p : Bool} (hs : Settled next n) :
    Settled next (if p then close n c else n) := by
  cases p with
  | false => exact hs
  | true => exact hs.loosen.close

theorem namespaceOf_of_precheck (hns : s.ns ≠ "")
    (h : (precheckChannel s key).isOk = true) : key = "" ∨ namespaceOf key = .ok s.ns := by
  unfold precheckChannel at h
  split_ifs at h with hkey
  · exact .inl hkey
  · exact .inr (namespaceOf_of_checkNamespace hns h)

def Envelope.removals : Envelope → List Removal
  | .unsubscribe channels => channels
  | .subRefresh channels => channels
  | _ => []

theorem precheckChannel_of_precheckNamespace {envelope dispatched : Envelope}
    (h : precheckNamespace s envelope = some dispatched) :
    ∀ r ∈ dispatched.removals, (precheckChannel s r.channel).isOk = true := by
  cases envelope with
  | subscribe subs =>
    cases h
    simp [Envelope.removals]
  | unsubscribe channels | subRefresh channels =>
    rw [precheckNamespace] at h
    split_ifs at h with hall
    cases h
    exact all_eq_true.mp hall
  | publish channel =>
    rw [precheckNamespace] at h
    split_ifs at h
    cases h
    simp [Envelope.removals]

theorem settled_handleMessage {envelope : Envelope} {serving : Bool} (hs : Settled next n) :
    Settled next (handleMessage cfg n c envelope serving) := by
  unfold handleMessage
  simp only
  split
  · exact hs
  cases hauth : (n.sessions c).authenticated with
  | false => exact settled_close_if hs
  | true =>
    simp only [Bool.not_true, Bool.false_eq_true, if_false]
    cases hpre : precheckNamespace (n.sessions c) envelope with
    | none => exact hs
    | some dispatched =>
      have hchecked := fun r hr => namespaceOf_of_precheck (hs.resolved c hauth)
        (precheckChannel_of_precheckNamespace hpre r hr)
      cases dispatched with
      | subscribe subs =>
        have hsubs := scoped_subscribeEach hs hauth cfg false subs [] (by simp)
        simp only
        split
        · next t hresult =>
          rw [hresult] at hsubs
          exact settled_close_if hsubs
        · next t r _ hresult =>
          rw [hresult] at hsubs
          exact hsubs
      | unsubscribe channels => exact scoped_removeEach hs hauth (forall_mem_map.mpr hchecked)
      | subRefresh channels =>
        refine scoped_removeEach hs hauth (forall_mem_map.mpr fun removal hremoval => ?_)
        exact hchecked removal (mem_of_mem_filter hremoval)
      | publish channel => exact hs

end Handlers

section Connect
variable {who : Identity} {req : ConnectRequest} {rep : ConnectReply} {restores : List Restore}

theorem resolveIdentity_ns (h : resolveIdentity cfg req rep = some who) : who.ns ≠ "" := by
  unfold resolveIdentity at h
  simp only at h
  split at h
  · cases h
  · obtain ⟨found, -, hfound⟩ := bind_eq_some_iff.mp h
    generalize hresolved : (if found.2 = "" then cfg.serverNamespace else found.2) = ns at hfound
    split_ifs at hfound with hempty
    cases hfound
    intro hns
    have hvalid := cfg.validated
    simp only at hns
    split_ifs at hresolved with hfound
    · rw [hresolved, if_pos hns] at hvalid
      exact hempty ⟨hns, hvalid⟩
    · exact hfound (hresolved.trans hns)

theorem attach_ok {r : Session} {att : Option Attachment} {probe : Bool}
    (h : s.attach att probe = .ok r) :
    r.ns = s.ns ∧ r.authenticated = s.authenticated ∧ r.subscribedChannels = s.subscribedChannels ∧
      r.delegate = s.delegate ∧ s.state ≠ .closed ∧ r.state ≠ .closed := by
  unfold Session.attach at h
  cases att with
  | none => cases h
  | some att =>
    simp only at h
    split_ifs at h
    unfold Session.attachLocked at h
    cases hstate : s.state <;> rw [hstate] at h <;> cases h <;> simp

theorem extends_restoreOne {r : Restore}
    (hin : ¬ ((n.sessions c).ns ≠ "" ∧ namespaceOf r.channel ≠ .ok (n.sessions c).ns)) :
    Extends True c r.channel n (restoreOne c n r) := by
  unfold restoreOne
  simp only
  rw [if_neg hin]
  have hrestore := extends_restoreLocalSubscription n c r.channel r.ephemeral r.subscribed
  rcases hresult : n.restoreLocalSubscription r.channel (newSubscriber c r.ephemeral) r.subscribed
    with ⟨failed, t⟩
  rw [hresult] at hrestore
  cases failed with
  | true => exact hrestore.untrackChannel
  | false =>
    simp only
    split_ifs
    · exact hrestore.removeLocalSubscriptionOnly
    · exact hrestore.getD fun _ => hrestore.adjust

section
variable (hs : Scoped (· = c) next n)
include hs

theorem scoped_restoreOne {r : Restore}
    (hauth : (n.sessions c).authenticated = true) (hnamed : ∃ ns, namespaceOf r.channel = .ok ns) :
    Scoped (· = c) next (restoreOne c n r) ∧
      (∃ channels, (restoreOne c n r).sessions c =
        { n.sessions c with subscribedChannels := channels }) ∧
      ∀ key ∈ (restoreOne c n r).tracked c,
        namespaceOf key = .ok (n.sessions c).ns ∨ (key ∈ n.tracked c ∧ key ≠ r.channel) := by
  by_cases hout : (n.sessions c).ns ≠ "" ∧ namespaceOf r.channel ≠ .ok (n.sessions c).ns
  · have hstep : restoreOne c n r = n.untrackChannel c r.channel := if_pos hout
    have he : Extends False c r.channel n (n.untrackChannel c r.channel) :=
      Extends.refl.untrackChannel
    rw [hstep]
    refine ⟨hs.extends he hauth False.elim (fun h => absurd rfl h) hnamed, ⟨_, he.sessions c⟩, ?_⟩
    intro key hkey
    rw [tracked_untrackChannel, mem_erase] at hkey
    exact .inr hkey.symm
  · have he := extends_restoreOne hout
    have hkey : namespaceOf r.channel = .ok (n.sessions c).ns := by
      by_contra hne
      exact hout ⟨hs.resolved c hauth, hne⟩
    refine ⟨hs.extends he hauth (fun _ => hkey) (fun _ _ => hkey) hnamed, ⟨_, he.sessions c⟩, ?_⟩
    intro key hmem
    by_cases heq : key = r.channel
    · subst heq
      exact .inl hkey
    · exact .inr ⟨(he.tracked c key hmem).resolve_right fun h => heq h.2, heq⟩

variable (hnamed : ∀ r ∈ restores, ∃ ns, namespaceOf r.channel = .ok ns)
include hnamed

theorem settled_restore (hauth : (n.sessions c).authenticated = true)
    (htracked : ∀ key ∈ n.tracked c,
      namespaceOf key = .ok (n.sessions c).ns ∨ key ∈ restores.map Restore.channel) :
    Settled next (restoreSessionSubscriptions n c restores) ∧
      ((restoreSessionSubscriptions n c restores).sessions c).authenticated = true := by
  induction restores generalizing n with
  | nil =>
    refine ⟨hs.tighten hauth fun key hkey => ?_, hauth⟩
    exact (htracked key hkey).resolve_right (by simp)
  | cons r restores ih =>
    obtain ⟨hscoped, ⟨channels, hsame⟩, hkeys⟩ :=
      scoped_restoreOne hs hauth (hnamed r mem_cons_self)
    refine ih hscoped (fun other hother => hnamed other (mem_cons_of_mem r hother)) ?_ ?_
    · rw [hsame]
      exact hauth
    · intro key hkey
      rw [hsame]
      rcases hkeys key hkey with hkey | ⟨hkey, hne⟩
      · exact .inl hkey
      · refine (htracked key hkey).imp id fun hmem => ?_
        exact (mem_cons.mp hmem).resolve_left hne

theorem settled_finishConnect {resumed resumedLocal : Bool} (hwho : who.ns ≠ "") (hnew : c < next)
    (hns : who.ns = (n.sessions c).ns ∨ ∀ key, ¬ Records n.hub c key)
    (htracked : ∀ key ∈ n.tracked c,
      namespaceOf key = .ok who.ns ∨ key ∈ restores.map Restore.channel) :
    Settled next (finishConnect cfg n c who req rep resumed resumedLocal restores) := by
  unfold finishConnect
  set m := n.setSession c (authenticate (n.sessions c) who req.clientID resumed) with hm
  have hself : m.sessions c = authenticate (n.sessions c) who req.clientID resumed := by simp [hm]
  have hmauth : (m.sessions c).authenticated = true := by rw [hself]; rfl
  have hmns : (m.sessions c).ns = who.ns := by
    rw [hself]
    exact if_pos hwho
  have hmtracked : m.tracked c = n.tracked c := by
    rw [tracked, hself]
    rfl
  have hscoped : Scoped (· = c) next m := by
    refine hs.setSession (fun _ _ => id) ?_ (fun h => absurd rfl h) (hs.named c) (fun _ => rfl) ?_
      (fun h => by cases h) (hs.delegates c)
    · exact hns.imp (fun h => (if_pos hwho).trans h) id
    · intro _
      exact ⟨(if_pos hwho).trans_ne hwho, hnew⟩
  have hregistered : ∀ sid x, (m.hub.add (m.sessionID c) c).lookupSession sid = some x →
      (m.sessions x).authenticated = true := by
    intro sid x hx
    unfold add at hx
    split_ifs at hx
    · exact hscoped.registered sid x hx
    · exact Finmap.forall_lookup_insert (P := fun _ x => (m.sessions x).authenticated = true) hmauth
        hscoped.registered sid x hx
  have hsynced : ∀ t, (if resumedLocal = true then m.syncClusterSessionState c rep.synced
      else addClient m c rep.added rep.synced) = some t →
      Scoped (· = c) next t ∧ t.sessions = m.sessions := by
    intro t ht
    split_ifs at ht
    · exact hscoped.sync ht
    · unfold addClient at ht
      split_ifs at ht
      have hadd : Scoped (· = c) next (m.setHub (m.hub.add (m.sessionID c) c)) := by
        refine hscoped.setHub ?_ ?_ hregistered <;> · unfold add; split_ifs <;> rfl
      exact hadd.sync ht
  simp only
  split
  · apply Scoped.close
    split_ifs
    · exact hscoped
    · refine hscoped.setHub rfl rfl fun sid x hx => ?_
      exact hscoped.registered sid x (Finmap.lookup_of_erase hx)
  · next t ht =>
    obtain ⟨hscoped, hsessions⟩ := hsynced t ht
    obtain ⟨hrestored, hauth⟩ := settled_restore hscoped hnamed
      (by rw [hsessions]; exact hmauth) (by
        intro key hkey
        rw [tracked, hsessions] at hkey
        rw [hsessions, hmns]
        exact htracked key (hmtracked ▸ hkey))
    have hsubs := scoped_subscribeEach hrestored hauth cfg true req.subscriptions [] (by simp)
    split
    · next u hresult =>
      rw [hresult] at hsubs
      exact hsubs.loosen.close
    · next u r _ hresult =>
      rw [hresult] at hsubs
      exact hsubs

theorem settled_attachOwn {resumed : Bool} (hwho : who.ns ≠ "")
    (hnew : c < next) (hauth : (n.sessions c).authenticated = false)
    (htracked : ∀ key ∈ n.tracked c, key ∈ restores.map Restore.channel) :
    Settled next (attachOwn cfg n c who req rep resumed restores) := by
  unfold attachOwn
  split
  · exact hs.close
  · next s hattach =>
    obtain ⟨hns, hsame, hchannels, hdelegate, hopen, -⟩ := attach_ok hattach
    refine settled_finishConnect (hs.update hns hsame hchannels (fun _ => hopen) ?_) hnamed hwho
      hnew ?_ ?_
    · intro e he
      exact hs.delegates c e (hdelegate ▸ he)
    · exact .inr (hs.unrecorded c hauth)
    · intro key hkey
      simp only [tracked, setSession_sessions, update_self, hchannels] at hkey
      exact .inr (htracked key hkey)

end

theorem detach_fields (s : Session) :
    s.detach.ns = s.ns ∧ s.detach.authenticated = s.authenticated ∧
      s.detach.subscribedChannels = s.subscribedChannels ∧ s.detach.delegate = s.delegate ∧
      (s.detach.state ≠ .closed → s.state ≠ .closed) := by
  unfold Session.detach
  split_ifs with hattached
  · simp [hattached]
  · simp

theorem settled_takeoverBy {e : SessionRef} (probe : Bool) (hs : Settled next n) (hne : c ≠ e)
    (hauth : (n.sessions e).authenticated = true) :
    match takeoverBy n c e probe with
    | .error t => Settled next t
    | .ok t => Settled next t ∧ (t.sessions e).ns = (n.sessions e).ns ∧
        (t.sessions e).authenticated = true ∧ (t.sessions e).state ≠ .closed := by
  unfold takeoverBy
  simp only
  obtain ⟨hns, hsame, hchannels, hdelegate, hstate⟩ := detach_fields (n.sessions e)
  set m := n.setSession e (n.sessions e).detach with hm
  have hself : m.sessions e = (n.sessions e).detach := by simp [hm]
  have hdetached : Settled next m :=
    hs.update hns hsame hchannels hstate fun x hx => hs.delegates e x (hdelegate ▸ hx)
  cases hatt : (m.sessions c).attachment with
  | none => exact hdetached
  | some att =>
    simp only
    cases hattach : (m.sessions e).attach (some att) probe with
    | error err => exact hdetached.loosen.close
    | ok resumed =>
      obtain ⟨hrns, hrsame, hrchannels, hrdelegate, hropen, hrstate⟩ := attach_ok hattach
      have hresumed : Settled next (m.setSession e resumed) :=
        hdetached.update hrns hrsame hrchannels (fun _ => hropen) fun x hx =>
          hdetached.delegates e x (hrdelegate ▸ hx)
      have hshell : (m.setSession e resumed).sessions c = m.sessions c := by simp [hne]
      refine ⟨hresumed.update ?_ ?_ ?_ ?_ ?_, ?_⟩
      · rw [hshell]
      · rw [hshell]
      · rw [tracked, hshell]
      · rw [hshell]
        exact id
      · intro x hx
        cases hx
        simpa [hrsame, hself, hsame] using hauth
      · simp only [setSession_sessions, update_of_ne (Ne.symm hne),
          update_self]
        refine ⟨?_, ?_, hrstate⟩
        · rw [hrns, hself, hns]
        · rw [hrsame, hself, hsame, hauth]

section
variable (hs : Settled next n) (hwho : who.ns ≠ "") (hauth : (n.sessions c).authenticated = false)
include hs hwho hauth

theorem settled_attachOwn_new (hnew : c < next) (hopen : (n.sessions c).state ≠ .closed) :
    Settled next (attachOwn cfg n c who req rep false []) := by
  refine settled_attachOwn hs.loosen (by simp) hwho hnew hauth ?_
  rw [hs.idle c hauth id hopen]
  simp

theorem settled_resumeRemote (hnew : c < next)
    (hopen : (n.sessions c).state ≠ .closed) (hrestores : rep.restoresSnapshot n req.sessionID) :
    Settled next (resumeRemote cfg n c who req rep) := by
  have hclose : Settled next (close n c) := hs.loosen.close
  have hown : Settled next (attachOwn cfg n c who req rep false []) :=
    settled_attachOwn_new hs hwho hauth hnew hopen
  unfold resumeRemote
  split
  · exact hclose
  · exact hown
  · split
    · exact hclose
    split
    · exact hown
    · next snapshot hfound =>
      split
      · exact hclose
      · have hsnapshot : n.snapshots req.sessionID = some snapshot := by
          cases hb : rep.snapshotFound with
          | false => simp [hb] at hfound
          | true => simpa [hb] using hfound
        have hnamed : ∀ r ∈ rep.restores, ∃ ns, namespaceOf r.channel = .ok ns := by
          intro r hr
          refine hs.stored _ _ hsnapshot r.channel
            (mem_image.mpr ⟨(r.channel, r.ephemeral), ?_, rfl⟩)
          rw [← hrestores snapshot hsnapshot]
          exact mem_toFinset.mpr (mem_map.mpr ⟨r, hr, rfl⟩)
        refine settled_attachOwn ?_ hnamed hwho hnew ?_ ?_
        · refine hs.setSession (fun _ _ => False.elim) (.inr (hs.unrecorded c hauth))
            (fun h => absurd rfl h) ?_ ?_ ?_ (fun _ h => absurd rfl h) (hs.delegates c)
          · intro key hkey
            obtain ⟨r, hr, rfl⟩ := mem_map.mp (mem_toFinset.mp hkey)
            exact hnamed r hr
          · intro h
            rw [hauth] at h
            cases h
          · intro h
            rw [Session.adoptIdentity, hauth] at h
            cases h
        · simpa [Session.adoptIdentity] using hauth
        · intro key hkey
          simpa [tracked, Session.adoptIdentity] using hkey

theorem settled_resumeLocal {e : SessionRef} (he : (n.sessions e).authenticated = true) :
    Settled next (resumeLocal cfg n c e who req rep) := by
  have hclose : Settled next (close n c) := hs.loosen.close
  have hne : c ≠ e := by
    rintro rfl
    rw [hauth] at he
    cases he
  unfold resumeLocal
  simp only
  split
  · exact hclose
  next howner =>
  split
  · exact hclose
  -- A registered session has a namespace, so the owner check has compared it.
  have hns : (n.sessions e).ns = who.ns := by
    rcases (not_not.mp howner).2 with h | h | h
    · exact absurd h (hs.resolved e he)
    · exact absurd h hwho
    · exact h
  set m := n.setSession e (reidentify (n.sessions e) who) with hm
  have hmns : (m.sessions e).ns = who.ns := by simp [hm, reidentify, hwho]
  have hmauth : (m.sessions e).authenticated = true := by simpa [hm, reidentify] using he
  have hscoped : Settled next m :=
    hs.update ((if_pos hwho).trans hns.symm) rfl rfl id (hs.delegates e)
  have htakeover := settled_takeoverBy rep.probe hscoped hne hmauth
  cases hresult : takeoverBy m c e rep.probe with
  | error t =>
    rw [hresult] at htakeover
    exact htakeover.loosen.close
  | ok t =>
    rw [hresult] at htakeover
    obtain ⟨hsettled, htns, htauth, htopen⟩ := htakeover
    rw [hmns] at htns
    refine settled_finishConnect hsettled.loosen (by simp) hwho (hsettled.created e htauth)
      (.inl htns.symm) ?_
    intro key hkey
    rw [← htns]
    exact .inl (hsettled.tracked e id htopen key hkey)

end

theorem settled_handleConnect {serving : Bool} (hs : Settled next n)
    (hnew : (n.sessions c).authenticated = false → c < next)
    (hrestores : rep.restoresSnapshot n req.sessionID) :
    Settled next (handleConnect cfg n c req rep serving) := by
  unfold handleConnect
  simp only
  split
  · exact hs
  next hopen =>
  by_cases hconnected : (n.sessions c).authenticated = true
  · rw [if_pos hconnected]
    exact settled_close_if hs
  · rw [if_neg hconnected]
    have hauth : (n.sessions c).authenticated = false := by simpa using hconnected
    split
    · exact hs.loosen.close
    cases hwho : resolveIdentity cfg req rep with
    | none => exact hs.loosen.close
    | some who =>
      have hns := resolveIdentity_ns hwho
      have hbind : ∀ sid, Settled next
          (n.setSession c { n.sessions c with session := sid, ns := who.ns }) := by
        intro sid
        have hempty : ∀ key, key ∉ n.tracked c := by simp [hs.idle c hauth id hopen]
        refine hs.setSession (fun _ _ => id) (.inr (hs.unrecorded c hauth)) ?_ ?_ ?_ ?_ ?_
          (hs.delegates c)
        · intro _ _ key hkey
          exact absurd hkey (hempty key)
        · intro key hkey
          exact absurd hkey (hempty key)
        · exact id
        · intro h
          rw [hauth] at h
          cases h
        · intro _ _ _
          exact hs.idle c hauth id hopen
      have hself : ∀ s, (n.setSession c s).sessions c = s := by simp
      simp only
      split_ifs
      · have hunauth : ((n.setSession c { n.sessions c with
            session := req.sessionID, ns := who.ns }).sessions c).authenticated = false := by
          rw [hself]
          exact hauth
        split
        · next e he =>
          exact settled_resumeLocal (hbind _) hns hunauth ((hbind _).registered _ e he)
        · refine settled_resumeRemote (hbind _) hns hunauth (hnew hauth) ?_ hrestores
          rw [hself]
          exact hopen
      · refine settled_attachOwn_new (hbind (n.sessions c).session) hns ?_ (hnew hauth) ?_
        · rw [hself]
          exact hauth
        · rw [hself]
          exact hopen

end Connect

section Fence
variable {f : Fencing}

structure Fenced (next : SessionRef) (n : Node) (f : Fencing) : Prop where
  settled : Settled next n
  authenticated : (n.sessions f.session).authenticated = true
  tracked : ∀ key ∈ n.tracked f.session, namespaceOf key = .ok (n.sessions f.session).ns
  todo : ∀ key ∈ f.todo, namespaceOf key = .ok (n.sessions f.session).ns
  removed : ∀ r ∈ f.removed, namespaceOf r.1 = .ok (n.sessions f.session).ns

theorem Fenced.extends {g : Fencing} (hf : Fenced next n f) (he : Extends True f.session ch n t)
    (hch : namespaceOf ch = .ok (n.sessions f.session).ns) (hsession : g.session = f.session)
    (htodo : ∀ key ∈ g.todo, key ∈ f.todo) (hremoved : ∀ r ∈ g.removed, r ∈ f.removed ∨ r.1 = ch) :
    Fenced next t g := by
  obtain ⟨session, attachment, todo, removed, failed, restoring⟩ := g
  obtain rfl : session = f.session := hsession
  refine ⟨hf.settled.extends he hf.authenticated (fun _ => hch) (fun _ _ => hch) ⟨_, hch⟩, ?_, ?_, ?_, ?_⟩
  all_goals simp only [he.sessions f.session]
  · exact hf.authenticated
  · intro key hkey
    rcases he.tracked _ key hkey with hkey | ⟨-, rfl⟩
    · exact hf.tracked key hkey
    · exact hch
  · intro key hkey
    exact hf.todo key (htodo key hkey)
  · intro r hr
    rcases hremoved r hr with hr | rfl
    · exact hf.removed r hr
    · exact hch

theorem settled_unregister (hs : Settled next n) (sid : String) (c : SessionRef) :
    Settled next (n.setHub (n.hub.removeSessionIfMatches sid c).2) := by
  unfold removeSessionIfMatches
  split_ifs
  · refine hs.setHub rfl rfl fun other x hx => ?_
    exact hs.registered other x (Finmap.lookup_of_erase hx)
  · exact hs

theorem reopen_fields (s : Session) (att : Option Attachment) :
    (s.reopen att).ns = s.ns ∧ (s.reopen att).authenticated = s.authenticated ∧
      (s.reopen att).delegate = s.delegate := by
  unfold Session.reopen
  split_ifs <;> exact ⟨rfl, rfl, rfl⟩

theorem Fenced.reopen (hf : Fenced next n f) :
    Settled next (n.setSession f.session ((n.sessions f.session).reopen f.attachment)) := by
  obtain ⟨hns, hauth, hdelegate⟩ := reopen_fields (n.sessions f.session) f.attachment
  refine hf.settled.setSession (fun _ _ => id) (.inl hns) ?_ ?_ ?_ ?_ ?_ ?_
  · intro _ _ key hkey
    rw [Session.subscribedChannels_reopen] at hkey
    rw [hns]
    exact hf.tracked key hkey
  · intro key hkey
    rw [Session.subscribedChannels_reopen] at hkey
    exact hf.settled.named _ key hkey
  · intro h
    rwa [hauth]
  · intro _
    rw [hns]
    exact ⟨hf.settled.resolved _ hf.authenticated, hf.settled.created _ hf.authenticated⟩
  · intro h
    rw [hauth, hf.authenticated] at h
    cases h
  · intro e he
    exact hf.settled.delegates _ e (hdelegate ▸ he)

theorem Fenced.step (hf : Fenced next n f) (ok adjusted : Bool) :
    match Fencing.step n f ok adjusted with
    | (t, .inl g) => Fenced next t g
    | (t, .inr _) => Settled next t := by
  unfold Fencing.step
  cases hrestoring : f.restoring with
  | true =>
    cases hremoved : f.removed with
    | nil => exact hf.reopen
    | cons r rest =>
      have he := extends_restoreLocalSubscription n f.session r.1 r.2 ok
      refine hf.extends (he.getD fun _ => he.adjust) (hf.removed r ?_) rfl (fun _ => id) ?_
      · simp [hremoved]
      · intro other hother
        exact .inl (hremoved ▸ mem_cons_of_mem r hother)
  | false =>
    cases htodo : f.todo with
    | nil =>
      cases hfailed : f.failed with
      | true => exact { hf with todo := by simp }
      | false => exact settled_unregister hf.settled _ _
    | cons ch rest =>
      have he : Extends True f.session ch n (n.removeLocalSubscriptionOnly ch f.session ok).2.2 :=
        Extends.refl.removeLocalSubscriptionOnly
      have hch : namespaceOf ch = .ok (n.sessions f.session).ns := hf.todo ch (by simp [htodo])
      have hrest : ∀ key ∈ rest, key ∈ f.todo := fun key hkey => by simp [htodo, hkey]
      simp only [Bool.false_eq_true, if_false]
      rcases hresult : n.removeLocalSubscriptionOnly ch f.session ok with ⟨removed, failed, t⟩
      rw [hresult] at he
      cases removed with
      | false => exact hf.extends he hch rfl hrest fun _ => .inl
      | true =>
        exact hf.extends (he.getD fun _ => he.adjust) hch rfl hrest
          (forall_mem_snoc (fun _ => .inl) (.inr rfl))

theorem settled_fenceSteps {outcomes : List (Bool × Bool)} (hf : Fenced next n f)
    (ht : fenceSteps outcomes n f = some t) : Settled next t := by
  induction outcomes generalizing n f with
  | nil => cases ht
  | cons outcome outcomes ih =>
    rw [fenceSteps] at ht
    have hstep := hf.step outcome.1 outcome.2
    rcases hresult : Fencing.step n f outcome.1 outcome.2 with ⟨m, g | finished⟩
    · rw [hresult] at ht hstep
      exact ih hstep ht
    · rw [hresult] at ht hstep
      cases ht
      exact hstep

theorem settled_takeover {channels : List String} {outcomes : List (Bool × Bool)}
    (hs : Settled next n) (hauth : (n.sessions c).authenticated = true)
    (ht : handleClusterTakeoverCommand n c channels outcomes = some t) : Settled next t := by
  unfold handleClusterTakeoverCommand at ht
  split_ifs at ht with hclosed hchannels
  · cases ht
    exact hs
  · have hkeys := hs.tracked c id hclosed
    have hself : (close n c).sessions c = (n.sessions c).markClosed := by simp [close]
    refine settled_fenceSteps ⟨hs.loosen.close, ?_, ?_, ?_, ?_⟩ ht
    all_goals simp only [Fencing.start, tracked, hself]
    · exact hauth
    · exact hkeys
    · intro key hkey
      refine hkeys key ?_
      rw [← hchannels.2]
      exact mem_toFinset.mpr hkey
    · intro _ h
      cases h

end Fence

section Runs
variable {s t : State} {k : Nat}

def Inv (s : State) : Prop :=
  ∀ k, Settled (s.next k) (s.node k)

theorem inv_start (clustered : Nat → Bool) : Inv (.start clustered) := by
  intro k
  have hnone : ∀ c key, ¬ Records empty c key := by
    rintro c key (⟨sid, sub, hr, -⟩ | ⟨id, sub, hr, -⟩) <;> exact absurd hr (by simp [empty])
  refine ⟨fun c key hr => absurd hr (hnone c key), ?_, nofun, nofun, nofun, nofun,
    fun c _ => hnone c, fun _ _ _ _ => rfl, ?_, nofun, nofun⟩
  · intro id key sub hr
    exact absurd hr (by simp [State.start, State.node, new, empty])
  · intro sid c hr
    exact absurd hr (by simp [State.start, State.node, new, empty, lookupSession])

theorem Inv.put (hs : Inv s) (hn : Settled (s.next k) n) : Inv (s.put k n) := by
  intro j
  by_cases hj : j = k
  · subst hj
    simpa [State.put, State.node] using hn
  · have hnode : (s.put k n).node j = { s.node j with snapshots := n.snapshots } := by
      simp [State.put, State.node, hj]
    rw [hnode]
    exact { hs j with stored := hn.stored }

theorem inv_accept {sessionID : String} {att : Attachment} (hs : Inv s)
    (hstep : step cfg s (.accept k sessionID att) = some t) : Inv t := by
  cases hstep
  have hfree : ((s.node k).sessions (s.next k)).authenticated = false := by
    cases hb : ((s.node k).sessions (s.next k)).authenticated with
    | false => rfl
    | true => exact absurd ((hs k).created _ hb) (lt_irrefl _)
  have haccepted : Settled (s.next k)
      ((s.node k).setSession (s.next k) (.newClient sessionID att)) := by
    refine (hs k).setSession (fun _ _ => id) (.inr ((hs k).unrecorded _ hfree)) ?_ ?_ ?_ ?_ ?_ ?_
    · nofun
    · nofun
    · intro h
      rw [hfree] at h
      cases h
    · nofun
    · exact fun _ _ _ => rfl
    · nofun
  intro j
  refine (hs.put haccepted j).mono_next ?_
  by_cases hj : j = k
  · subst hj
    simp [State.put]
  · simp [State.put, hj]

theorem inv_step {a : Action} (hs : Inv s) (hok : InNamespace s a) (hstep : step cfg s a = some t) :
    Inv t := by
  cases a with
  | accept k sessionID att => exact inv_accept hs hstep
  | connect k c req rep serving =>
    simp only [step] at hstep
    split_ifs at hstep with hguard
    cases hstep
    refine hs.put (settled_handleConnect (hs k) ?_ hguard.2)
    intro hauth
    unfold canonical at hauth ⊢
    cases hdelegate : ((s.node k).sessions c).delegate with
    | none => exact hguard.1
    | some e =>
      rw [hdelegate, getD_some, (hs k).delegates c e hdelegate] at hauth
      cases hauth
  | message k c envelope serving =>
    simp only [step] at hstep
    split_ifs at hstep
    cases hstep
    exact hs.put (settled_handleMessage (hs k))
  | apiSubscribe k i sessionID channel out =>
    simp only [step] at hstep
    split_ifs at hstep
    cases hstep
    refine hs.put ?_
    unfold handleClusterSubscribeCommand
    cases hlookup : (s.node k).hub.lookupSession sessionID with
    | none => exact hs k
    | some c =>
      exact scoped_addSubscription (hs k) ((hs k).registered _ _ hlookup) false out (hok c hlookup)
  | close k c =>
    cases hstep
    exact hs.put (hs k).loosen.close
  | removal k c channel out =>
    simp only [step] at hstep
    split_ifs at hstep with hguard
    cases hstep
    have hnamed := (hs k).named c channel hguard.2
    exact hs.put ((hs k).extends_of (extends_removeSubscription_of_scoped (hs k) c out hnamed)
      (fun _ => ⟨id, hguard.1⟩) False.elim (fun _ hopen => absurd hguard.1 hopen) hnamed)
  | unregister k c =>
    simp only [step] at hstep
    split_ifs at hstep
    cases hstep
    exact hs.put (settled_unregister (hs k) _ c)
  | sync k c ok =>
    cases hstep
    refine hs.put ?_
    cases hsync : (s.node k).syncClusterSessionState c ok with
    | none => exact hs k
    | some n => exact ((hs k).sync hsync).1
  | takeover k sessionID channels outcomes =>
    simp only [step] at hstep
    cases hlookup : (s.node k).hub.lookupSession sessionID with
    | none =>
      rw [hlookup] at hstep
      cases hstep
      exact hs
    | some c =>
      rw [hlookup] at hstep
      obtain ⟨n, hn, rfl⟩ := map_eq_some_iff.mp hstep
      exact hs.put (settled_takeover (hs k) ((hs k).registered _ _ hlookup) hn)

theorem Inv.confined (hs : Inv s) : Confined s where
  keys := by
    rintro k c key (hr | ⟨hopen, hkey⟩)
    · exact (hs k).records c key hr
    · exact (hs k).tracked c id hopen key hkey
  deliveries := by
    intro k channel c hvalid hmem
    obtain ⟨key, hr, hmatch⟩ := mem_getMatchingSubscribers hmem
    have hkey := (hs k).records c key hr
    obtain ⟨ns, hns⟩ := namespaceOf_of_validateChannel hvalid
    rcases hmatch with rfl | hmatch
    · exact hkey
    · rw [hns, namespaceOf_eq_of_match hkey hns hmatch]

/-- In every run in which Server API commands subscribe sessions to channels of their own namespace
only, the keys of every session are keys of its namespace, and it is sent publications of its
namespace only. -/
theorem namespace_confined {clustered : Nat → Bool} {as : List Action}
    (hrun : run cfg (.start clustered) as = some s)
    (hcommands : Transition.Along (step cfg) InNamespace (.start clustered) as) : Confined s :=
  Inv.confined (Transition.invariant_along (inv_start clustered)
    (fun _ _ _ hs hok hstep => inv_step hs hok hstep) hrun hcommands)

instance (s : State) : (a : Action) → Decidable (InNamespace s a)
  | .apiSubscribe k _ sessionID channel _ =>
    match h : (s.node k).hub.lookupSession sessionID with
    | none => isTrue (by simp [InNamespace, h])
    | some c => decidable_of_iff (namespaceOf channel = .ok ((s.node k).sessions c).ns)
        (by simp [InNamespace, h])
  | .accept .. | .connect .. | .message .. | .close .. | .removal .. | .unregister .. | .sync ..
  | .takeover .. => isTrue trivial

def tenantConfig : Config where
  requireAuth := true
  serverNamespace := ""
  maxSubscriptionsPerClient := 0
  authorizer := ⟨Channel.defaultChannelPolicy, []⟩
  validated := rfl

def tenantConnected (subscriptions : List String) : List Action :=
  [.accept 0 "s1" ⟨1, 1, .protobuf⟩,
    .connect 0 0
      ⟨"", "token", "client", true, subscriptions.map fun ch =>
        ⟨ch, false, "", true, .ok, .ok, false⟩⟩
      ⟨true, some ("u1", "a"), .ok none, false, true, 1, true, true, true, true, []⟩ true]

def staticToken : Authz.APIIdentity :=
  ⟨"static-token", ["*"], {.sessionAct}⟩

def tenantRun : List Action :=
  tenantConnected ["a:chat"] ++
    [.apiSubscribe 0 staticToken "s1" "a:news.*" .ok]

theorem namespace_confined_tenant :
    ∃ s, run tenantConfig (.start fun _ => false) tenantRun = some s ∧
      "a:chat" ∈ (s.node 0).tracked 0 ∧ "a:news.*" ∈ (s.node 0).tracked 0 ∧ Confined s :=
  ⟨_, rfl, by decide, by decide, namespace_confined
    (rfl : run tenantConfig (.start fun _ => false) tenantRun = _) (by decide)⟩

/-- The Server API subscribes a session of namespace `a` to a channel of namespace `b`. -/
theorem apiSubscribe_crosses_namespaces :
    ∃ s, run tenantConfig (.start fun _ => false) (tenantConnected [] ++
        [.apiSubscribe 0 staticToken "s1" "b:chat" .ok]) = some s ∧
      ((s.node 0).sessions 0).ns = "a" ∧ 0 ∈ getMatchingSubscribers (s.node 0).hub "b:chat" ∧
      ¬ Confined s := by
  refine ⟨_, rfl, rfl, by decide, fun h => ?_⟩
  exact absurd (h.keys 0 0 "b:chat" (.inr ⟨by decide, by decide⟩)) (by decide)

end Runs

end MessageLoop.Namespace
