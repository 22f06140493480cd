import MessageLoop.Runtime.SubscriptionAtomic
import MessageLoop.Session.Namespace

/-!
The node's channel projection in the cluster query store against the hub
(`internal/runtime/node.go`, `cluster_resume.go`, `cluster_repair.go`, `internal/session/hub.go`):
what the subscription operations count up and down, and what a repair pass puts in its place.

The cluster stores answer every call. Broker calls and presence registrations may fail; their
outcomes are part of the label.
-/

namespace MessageLoop

open Topics Namespace List Function Transition Finmap Node

/-- A channel that is not listed counts zero. Patterns are not channels. -/
def Hub.getActiveChannels (h : Hub) (ch : String) : Nat :=
  (h.subs ch).keys.card

def Node.repairProjections (n : Node) : Node :=
  if n.clusterEnabled then
    { n with projection := fun ch => if ch = "" then 0 else n.hub.getActiveChannels ch }
  else n

namespace Projection

/-- `others` is whatever else the node does with session objects and their registrations. -/
inductive Op where
  | subscription (ch : String) (op : SubOp) (broker : Bool)
  | restore (c : SessionRef) (restores : List Restore)
  | fence (c : SessionRef) (channels : List String) (outcomes : List (Bool × Bool))
  | repair
  | others (sessions : SessionRef → Session) (registry : Finmap fun _ : String => SessionRef)

def storesUp (broker : Bool) : SagaStep → Bool
  | .broker => broker
  | _ => true

def step (n : Node) : Op → Option Node
  | .subscription ch op broker => some (op.execute n ch (storesUp broker)).1
  | .restore c restores =>
    if restores.all (·.adjusted) then some (restoreSessionSubscriptions n c restores) else none
  | .fence c channels outcomes =>
    if outcomes.all (·.2) then handleClusterTakeoverCommand n c channels outcomes else none
  | .repair => some n.repairProjections
  | .others sessions registry =>
    some { n with sessions := sessions, hub := { n.hub with sessions := registry } }

structure Joined (n : Node) : Prop where
  enabled : n.clusterEnabled = true
  hub : n.hub.subs = fun _ => ∅
  patterns : n.hub.wcSubs = ∅
  projection : n.projection = fun _ => 0

/-- A session takes over another ID only before it subscribes. -/
def KeepsIDs (n : Node) : Op → Prop
  | .others sessions _ => ∀ ch sid r, (n.hub.subs ch).lookup sid = some r →
      (sessions r.session).session = n.sessionID r.session
  | _ => True

/-- No pattern is subscribed; a resume restores channels that the session is not subscribed to,
each once; the broker takes back what a failed `Fence` restores. -/
def Regular (n : Node) : Op → Prop
  | .subscription ch (.add _) _ => isWildcard ch = false
  | .subscription _ (.remove _) _ => True
  | .restore c restores => (restores.map Restore.channel).Nodup ∧
      ∀ r ∈ restores, isWildcard r.channel = false ∧ n.lookupSubscriber r.channel c = none
  | .fence _ channels outcomes => ∀ o ∈ outcomes.drop (channels.length + 1), o.1 = true
  | .repair => True
  | .others _ _ => True

instance decidableRegular (n : Node) : (op : Op) → Decidable (Regular n op)
  | .subscription ch (.add _) _ => inferInstanceAs (Decidable (isWildcard ch = false))
  | .subscription _ (.remove _) _ => isTrue trivial
  | .restore .. => inferInstanceAs (Decidable (_ ∧ ∀ r ∈ _, _))
  | .fence .. => inferInstanceAs (Decidable (∀ o ∈ _, _))
  | .repair | .others .. => isTrue trivial

structure Counted (n : Node) (ch : String) (due : Int) : Prop where
  enabled : n.clusterEnabled = true
  patterns : n.hub.wcSubs = ∅
  counts : ∀ x, (n.hub.getActiveChannels x : Int) = n.projection x + if x = ch then due else 0
  held : ∀ x sid r, (n.hub.subs x).lookup sid = some r →
    validTopic x = true ∧ isWildcard x = false ∧ n.sessionID r.session = sid

def Exact (n : Node) : Prop := ∀ ch, Counted n ch 0

variable {n t : Node} {ch : String} {c : SessionRef} {sub : Subscriber} {due : Int}

theorem exact_iff (ch : String) : Exact n ↔ Counted n ch 0 := by
  constructor
  · intro h
    exact h ch
  · intro h x
    refine { h with counts := ?_ }
    intro y
    simpa using h.counts y

theorem Exact.projection (h : Exact n) : n.projection = n.hub.getActiveChannels := by
  funext ch
  have hcount := (h ch).counts ch
  simp only [if_true, add_zero] at hcount
  exact_mod_cast hcount.symm

section Frame
variable (h : Counted n ch due)
include h

theorem Counted.of_eq (henabled : t.clusterEnabled = n.clusterEnabled)
    (hsubs : t.hub.subs = n.hub.subs) (hpatterns : t.hub.wcSubs = n.hub.wcSubs)
    (hprojection : t.projection = n.projection)
    (hids : ∀ x sid r, (n.hub.subs x).lookup sid = some r →
      t.sessionID r.session = n.sessionID r.session) : Counted t ch due where
  enabled := henabled.trans h.enabled
  patterns := hpatterns.trans h.patterns
  counts := by
    intro x
    have hcount := h.counts x
    unfold Hub.getActiveChannels at hcount ⊢
    rwa [hsubs, hprojection]
  held := by
    intro x sid r hr
    rw [hsubs] at hr
    obtain ⟨hvalid, hplain, hid⟩ := h.held x sid r hr
    exact ⟨hvalid, hplain, (hids x sid r hr).trans hid⟩

theorem Counted.untrackChannel (c : SessionRef) (x : String) :
    Counted (n.untrackChannel c x) ch due :=
  h.of_eq rfl rfl rfl rfl (fun _ _ _ _ => sessionID_untrackChannel)

theorem Counted.forceTrackChannel (c : SessionRef) (x : String) :
    Counted (n.forceTrackChannel c x) ch due :=
  h.of_eq rfl rfl rfl rfl (fun _ _ _ _ => sessionID_forceTrackChannel)

theorem Counted.setInterest (x : String) (k : Nat) :
    Counted (n.setInterest x k) ch due :=
  h.of_eq rfl rfl rfl rfl (fun _ _ _ _ => rfl)

theorem Counted.setSnapshot (sid : String) (snapshot : SessionSnapshot) :
    Counted (n.setSnapshot sid snapshot) ch due :=
  h.of_eq rfl rfl rfl rfl (fun _ _ _ _ => rfl)

theorem Counted.setSession {s : Session}
    (hid : s.session = n.sessionID c) : Counted (n.setSession c s) ch due := by
  refine h.of_eq rfl rfl rfl rfl ?_
  intro x sid r _
  by_cases hc : r.session = c
  · rw [hc]
    simpa [sessionID] using hid
  · simp [sessionID, update_of_ne hc]

end Frame

section Counts

theorem subs_addSub {h h' : Hub} {sid : String} {first : Bool} (hplain : isWildcard ch = false)
    (hadd : h.addSub ch sid sub = .ok (first, h')) :
    validTopic ch = true ∧ h'.wcSubs = h.wcSubs ∧
      h'.subs = Function.update h.subs ch ((h.subs ch).insert sid sub) := by
  unfold Hub.addSub at hadd
  rw [if_neg (by simp [hplain])] at hadd
  split_ifs at hadd with hvalid
  cases hadd
  exact ⟨hvalid, rfl, rfl⟩

variable (h : Counted n ch due)
include h

theorem Counted.addSub {first : Bool} (hplain : isWildcard ch = false)
    (hnone : n.lookupSubscriber ch sub.session = none) (hadd : n.addSub ch sub = .ok (first, t)) :
    Counted t ch (due + 1) := by
  obtain ⟨hub, hhub, rfl⟩ := addSub_eq_ok hadd
  obtain ⟨hvalid, hpatterns, hsubs⟩ := subs_addSub hplain hhub
  have hnew : n.sessionID sub.session ∉ (n.hub.subs ch).keys := by
    rw [Finmap.mem_keys, ← Finmap.lookup_eq_none]
    simpa [lookupSubscriber, Hub.lookupSubscriber, hplain] using hnone
  refine ⟨h.enabled, hpatterns.trans h.patterns, ?_, ?_⟩
  · intro x
    have hcount := h.counts x
    simp only [Hub.getActiveChannels, setHub_hub, setHub_projection, hsubs] at hcount ⊢
    by_cases hx : x = ch
    · subst hx
      rw [update_self, keys_insert, Finset.card_insert_of_notMem hnew]
      simp only [if_true] at hcount ⊢
      push_cast
      omega
    · rw [update_of_ne hx]
      simpa [hx] using hcount
  · intro x sid r hr
    rw [setHub_hub, hsubs] at hr
    by_cases hx : x = ch
    · subst hx
      rw [update_self] at hr
      exact forall_lookup_insert ⟨hvalid, hplain, rfl⟩ (h.held x) sid r hr
    · rw [update_of_ne hx] at hr
      exact h.held x sid r hr

theorem Counted.removeSub {last : Bool}
    (hremove : n.removeSub ch c = (last, true, t)) : Counted t ch (due - 1) := by
  have hremoved : (n.hub.removeSub ch (n.sessionID c)).2.1 = true :=
    congrArg (fun r => r.2.1) hremove
  obtain rfl := eq_setHub_of_removeSub hremove
  -- without pattern subscriptions the record found is one of an exact channel
  obtain ⟨hplain, hmem⟩ : isWildcard ch = false ∧ n.sessionID c ∈ n.hub.subs ch := by
    unfold Hub.removeSub at hremoved
    split_ifs at hremoved with hw hkey hkey
    · rw [h.patterns] at hkey
      exact absurd hkey notMem_empty
    · exact ⟨by simpa using hw, hkey⟩
  have hhub : (n.hub.removeSub ch (n.sessionID c)).2.2 = { n.hub with
      subs := update n.hub.subs ch ((n.hub.subs ch).erase (n.sessionID c)) } := by
    simp [Hub.removeSub, hplain, hmem]
  rw [hhub]
  refine ⟨h.enabled, h.patterns, ?_, ?_⟩
  · intro x
    have hcount := h.counts x
    simp only [Hub.getActiveChannels, setHub_hub, setHub_projection] at hcount ⊢
    by_cases hx : x = ch
    · subst hx
      have hcard := Finset.card_erase_add_one (Finmap.mem_keys.mpr hmem)
      rw [update_self, keys_erase]
      simp only [if_true] at hcount ⊢
      omega
    · rw [update_of_ne hx]
      simpa [hx] using hcount
  · intro x sid r hr
    apply h.held x sid r
    by_cases hx : x = ch
    · subst hx
      simp only [setHub_hub, update_self] at hr
      exact lookup_of_erase hr
    · simpa [update_of_ne hx] using hr

theorem Counted.adjust :
    ∃ t, n.adjustClusterChannelSubscriptions ch due true = some t ∧ Exact t := by
  refine ⟨n.setProjection ch (n.projection ch + due).toNat, ?_, ?_⟩
  · simp [adjustClusterChannelSubscriptions, h.enabled]
  · apply (exact_iff ch).mpr
    refine { h with counts := ?_ }
    intro x
    have hcount := h.counts x
    rw [setProjection_hub, setProjection_projection]
    by_cases hx : x = ch
    · subst hx
      rw [update_self]
      simp only [if_true] at hcount ⊢
      omega
    · rw [update_of_ne hx]
      simpa [hx] using hcount

theorem Counted.synced (c : SessionRef) : Exact (n.synced c ch due) := by
  obtain ⟨t, ht, hexact⟩ := (h.setSnapshot (n.sessionID c) (n.clusterSessionSnapshot c)).adjust
  have heq : n.synced c ch due = t := by
    simpa [Node.synced, adjustClusterChannelSubscriptions, h.enabled] using ht
  rw [heq]
  exact hexact

end Counts

section Subscriptions

theorem lookupSubscriber_eq (hexact : Exact n) {r : Subscriber}
    (h : n.lookupSubscriber ch c = some r) :
    validTopic ch = true ∧ isWildcard ch = false ∧ n.sessionID r.session = n.sessionID c := by
  by_cases hw : isWildcard ch
  · simp [lookupSubscriber, Hub.lookupSubscriber, hw, (hexact ch).patterns] at h
  · apply (hexact ch).held ch (n.sessionID c) r
    simpa [lookupSubscriber, Hub.lookupSubscriber, hw] using h

theorem Exact.setHub (h : Exact n) (henabled : t.clusterEnabled = n.clusterEnabled)
    (hprojection : t.projection = n.projection)
    (hids : ∀ c, t.sessionID c = n.sessionID c) : Exact (t.setHub n.hub) :=
  fun ch => (h ch).of_eq henabled rfl rfl hprojection (fun _ _ r _ => hids r.session)

theorem exact_add {broker : Bool} (h : Exact n) (hplain : isWildcard ch = false) :
    Exact ((SubOp.add sub).execute n ch (storesUp broker)).1 := by
  cases hnone : n.lookupSubscriber ch sub.session with
  | some r => simpa [SubOp.execute, addSubscription, hnone] using h
  | none =>
    by_cases hrefused : ¬ validTopic ch ∨ (n.sessions sub.session).state = .closed
    · obtain ⟨e, he⟩ := execute_add_of_refused (storesUp broker) hnone hrefused
      rw [he]
      exact h
    · obtain ⟨hvalid, hopen⟩ := not_or.mp hrefused
      obtain ⟨hub, hadd⟩ := Hub.addSub_of_valid sub hnone (not_not.mp hvalid)
      have hcounted := (h ch).addSub hplain hnone (addSub_eq hadd)
      have hadded : Counted (added n ch sub.session hub) ch (0 + 1) :=
        hcounted.forceTrackChannel sub.session ch
      have hback := removeSub_of_added (t := (added n ch sub.session hub).untrackChannel
        sub.session ch) hnone hadd (by simp)
      simp only [execute_add hnone hadd hopen, storesUp, and_false, Bool.true_eq_false, if_false]
      split_ifs
      · rw [undone, hback]
        refine h.setHub rfl rfl ?_
        intro c
        rw [sessionID_untrackChannel]
        exact sessionID_forceTrackChannel
      · refine Counted.synced ?_ sub.session
        unfold interested
        split_ifs
        · exact hadded.setInterest ch _
        · exact hadded

theorem exact_remove {broker : Bool} (h : Exact n) :
    Exact ((SubOp.remove c).execute n ch (storesUp broker)).1 := by
  cases hsome : n.lookupSubscriber ch c with
  | none => simpa [SubOp.execute, removeSubscription, hsome] using h
  | some r =>
    obtain ⟨last, m, hremove⟩ := exists_removeSub hsome
    obtain ⟨hvalid, hplain, hid⟩ := lookupSubscriber_eq h hsome
    have hm := eq_setHub_of_removeSub hremove
    have hreleased : Counted (m.untrackChannel c ch) ch (0 - 1) :=
      ((h ch).removeSub hremove).untrackChannel c ch
    simp only [execute_remove hsome hremove (by rw [hm]; rfl), storesUp, and_false,
      Bool.true_eq_false, if_false]
    split_ifs
    · -- the record goes back to where it was
      have hreadds : n.hub.Readds ch (n.sessionID c) := ⟨hvalid, by simp [hplain]⟩
      have hback := (Hub.readd_removeSub_iff hsome).mpr hreadds
      have hids : ∀ d, ((m.untrackChannel c ch).forceTrackChannel c ch).sessionID d =
          n.sessionID d := by
        intro d
        rw [sessionID_forceTrackChannel, sessionID_untrackChannel, hm]
        rfl
      have hhub : redone (m.untrackChannel c ch) ch c r =
          ((m.untrackChannel c ch).forceTrackChannel c ch).setHub n.hub := by
        have hsame : ((m.untrackChannel c ch).forceTrackChannel c ch).hub =
            (n.hub.removeSub ch (n.sessionID c)).2.2 := by
          rw [hm]
          rfl
        rw [redone, readdSub, hids, hid, hsame, hback]
      rw [hhub]
      refine h.setHub ?_ ?_ hids
      · rw [hm]
        rfl
      · rw [hm]
        rfl
    · refine Counted.synced ?_ c
      unfold released
      split_ifs
      · exact hreleased.setInterest ch _
      · exact hreleased

end Subscriptions

section Local

theorem Counted.removeLocal {ok removed failed : Bool} (h : Counted n ch due)
    (hlocal : n.removeLocalSubscriptionOnly ch c ok = (removed, failed, t)) :
    if removed then Counted t ch (due - 1) else t = n := by
  unfold removeLocalSubscriptionOnly at hlocal
  rcases hremove : n.removeSub ch c with ⟨last, found, m⟩
  rw [hremove] at hlocal
  cases found with
  | false =>
    cases hlocal
    rfl
  | true =>
    have hcounted := (h.removeSub hremove).untrackChannel c ch
    cases last with
    | false =>
      cases hlocal
      exact hcounted
    | true =>
      cases ok <;> cases hlocal
      · exact hcounted
      · exact hcounted.setInterest ch _

theorem Exact.restoreLocal {ok failed : Bool} (h : Exact n)
    (hlocal : n.restoreLocalSubscription ch sub ok = (failed, t)) (hplain : isWildcard ch = false)
    (hnone : n.lookupSubscriber ch sub.session = none) :
    (failed = true ∧ t = n) ∨ (failed = false ∧ Counted t ch 1 ∧
      Node.Altered sub.session ch n t (some sub.ephemeral, true)) := by
  rcases restoreLocalSubscription_cases hnone hlocal with hfailed | ⟨hdone, hadded⟩
  · exact .inl hfailed
  · obtain ⟨first, m, k, hadd, rfl⟩ := hadded
    have hcounted := ((h ch).addSub hplain hnone hadd).setInterest ch k
    exact .inr ⟨hdone, hcounted.forceTrackChannel sub.session ch,
      (altered_addSub hnone hadd).setInterest ch k⟩

theorem lookupSubscriber_eq_none_iff :
    n.lookupSubscriber ch c = none ↔ (n.entry c ch).1 = none := by
  simp [entry]

theorem lookupSubscriber_of_altered {v : Option Bool × Bool} {x : String} (hne : x ≠ ch)
    (h : Node.Altered c ch n t v) :
    t.lookupSubscriber x c = none ↔ n.lookupSubscriber x c = none := by
  rw [lookupSubscriber_eq_none_iff, lookupSubscriber_eq_none_iff, h.entries,
    update_of_ne hne]

theorem lookupSubscriber_altered {v : Option Bool × Bool} (h : Node.Altered c ch n t v) :
    t.lookupSubscriber ch c = none ↔ v.1 = none := by
  rw [lookupSubscriber_eq_none_iff, h.entries, update_self]

theorem Counted.adjust_getD (h : Counted n ch due) :
    Exact ((n.adjustClusterChannelSubscriptions ch due true).getD n) := by
  obtain ⟨t, ht, hexact⟩ := h.adjust
  rw [ht]
  exact hexact

end Local

section Restore
variable {r : Restore}

theorem exact_restoreOne (h : Exact n) (hplain : isWildcard r.channel = false)
    (hnone : n.lookupSubscriber r.channel c = none) (hadjusted : r.adjusted = true) :
    Exact (restoreOne c n r) ∧ ∀ x, x ≠ r.channel → n.lookupSubscriber x c = none →
      (restoreOne c n r).lookupSubscriber x c = none := by
  have huntracked : Exact (n.untrackChannel c r.channel) :=
    fun ch => (h ch).untrackChannel c r.channel
  have hkept : ∀ x, n.lookupSubscriber x c = none →
      (n.untrackChannel c r.channel).lookupSubscriber x c = none := by
    intro x hx
    rw [lookupSubscriber, sessionID_untrackChannel]
    exact hx
  by_cases hout : (n.sessions c).ns ≠ "" ∧ namespaceOf r.channel ≠ .ok (n.sessions c).ns
  · rw [show restoreOne c n r = n.untrackChannel c r.channel from if_pos hout]
    exact ⟨huntracked, fun x _ hx => hkept x hx⟩
  rcases hlocal : n.restoreLocalSubscription r.channel (newSubscriber c r.ephemeral) r.subscribed
    with ⟨failed, m⟩
  have hone : restoreOne c n r = if failed then m.untrackChannel c r.channel
      else if !r.present then (m.removeLocalSubscriptionOnly r.channel c r.unsubscribed).2.2
      else (m.adjustClusterChannelSubscriptions r.channel 1 r.adjusted).getD m := by
    unfold restoreOne
    rw [if_neg hout, hlocal]
    cases failed <;> rfl
  rw [hone]
  rcases h.restoreLocal hlocal hplain hnone with ⟨rfl, rfl⟩ | ⟨rfl, hcounted, haltered⟩
  · rw [if_pos rfl]
    exact ⟨huntracked, fun x _ hx => hkept x hx⟩
  have haltered : Node.Altered c r.channel n m (some r.ephemeral, true) := haltered
  cases hpresent : r.present with
  | true =>
    simp only [Bool.not_true, Bool.false_eq_true, if_false, hadjusted]
    refine ⟨hcounted.adjust_getD, ?_⟩
    intro x hne hx
    exact (lookupSubscriber_of_altered hne (haltered.adjust r.channel 1 true)).mpr hx
  | false =>
    simp only [Bool.not_false, Bool.false_eq_true, if_false, if_true]
    rcases hremove : m.removeLocalSubscriptionOnly r.channel c r.unsubscribed with
      ⟨removed, failed, t⟩
    -- the record just restored is there to be removed
    have hthere : m.lookupSubscriber r.channel c ≠ none := by
      rw [Ne, lookupSubscriber_altered haltered]
      exact Option.some_ne_none _
    obtain rfl : removed = true := by
      rw [← Option.isSome_iff_ne_none, ← removeLocalSubscriptionOnly_fst, hremove] at hthere
      exact hthere
    have hdue : Counted t r.channel (1 - 1) := hcounted.removeLocal hremove
    have hgone : Node.Altered c r.channel m t (none, false) := by
      rcases removeLocalSubscriptionOnly_cases hremove with ⟨hkeep, -⟩ | ⟨-, -, hgone⟩
      · cases hkeep
      · exact hgone
    refine ⟨(exact_iff r.channel).mpr hdue, ?_⟩
    intro x hne hx
    exact (lookupSubscriber_of_altered hne hgone).mpr
      ((lookupSubscriber_of_altered hne haltered).mpr hx)

theorem exact_restoreSessionSubscriptions {restores : List Restore} (h : Exact n)
    (hdistinct : (restores.map Restore.channel).Nodup)
    (hnew : ∀ r ∈ restores, isWildcard r.channel = false ∧ n.lookupSubscriber r.channel c = none)
    (hadjusted : ∀ r ∈ restores, r.adjusted = true) :
    Exact (restoreSessionSubscriptions n c restores) := by
  unfold restoreSessionSubscriptions
  induction restores generalizing n with
  | nil => exact h
  | cons r restores ih =>
    rw [map_cons, nodup_cons] at hdistinct
    obtain ⟨hplain, hnone⟩ := hnew r mem_cons_self
    obtain ⟨hexact, hothers⟩ := exact_restoreOne h hplain hnone (hadjusted r mem_cons_self)
    refine ih hexact hdistinct.2 ?_ (fun q hq => hadjusted q (mem_cons_of_mem r hq))
    intro q hq
    obtain ⟨hplain', hnone'⟩ := hnew q (mem_cons_of_mem r hq)
    refine ⟨hplain', hothers q.channel ?_ hnone'⟩
    intro heq
    exact hdistinct.1 (heq ▸ mem_map_of_mem hq)

end Restore

section Fence

structure Fenced (n : Node) (f : Fencing) : Prop where
  exact : Exact n
  distinct : (f.todo ++ f.removed.map Prod.fst).Nodup
  gone : ∀ p ∈ f.removed, validTopic p.1 = true ∧ isWildcard p.1 = false ∧
    n.lookupSubscriber p.1 f.session = none

def Retakes (f : Fencing) (outcomes : List (Bool × Bool)) : Prop :=
  ∀ o ∈ outcomes.drop (if f.restoring then 0 else f.todo.length + 1), o.1 = true

variable {f : Fencing} {ok : Bool} {outcomes : List (Bool × Bool)}

theorem Fenced.restore {p : String × Bool} {rest : List (String × Bool)} (h : Fenced n f)
    (hremoved : f.removed = p :: rest)
    (ht : (n.restoreLocalSubscription p.1 (newSubscriber f.session p.2) true).2 = t) :
    Fenced ((t.adjustClusterChannelSubscriptions p.1 1 true).getD t)
      { f with removed := rest } := by
  obtain ⟨hvalid, hplain, hnone⟩ := h.gone p (by simp [hremoved])
  have hdistinct := h.distinct
  rw [hremoved, map_cons, nodup_middle, nodup_cons] at hdistinct
  rcases hlocal : n.restoreLocalSubscription p.1 (newSubscriber f.session p.2) true with
    ⟨failed, m⟩
  obtain rfl : m = t := by
    rw [hlocal] at ht
    exact ht
  rcases h.exact.restoreLocal hlocal hplain hnone with ⟨-, rfl⟩ | ⟨-, hcounted, haltered⟩
  · -- with a valid channel and the broker's consent the restore does not fail
    have hthere := altered_restoreLocalSubscription (newSubscriber f.session p.2) hnone hvalid
    rw [ht] at hthere
    cases (lookupSubscriber_altered hthere).mp hnone
  · refine ⟨hcounted.adjust_getD, hdistinct.2, ?_⟩
    intro q hq
    obtain ⟨hvalid', hplain', hnone'⟩ := h.gone q (by simp [hremoved, hq])
    refine ⟨hvalid', hplain', ?_⟩
    refine (lookupSubscriber_of_altered ?_ (haltered.adjust p.1 1 true)).mpr hnone'
    intro heq
    apply hdistinct.1
    rw [← heq]
    exact mem_append_right _ (mem_map_of_mem hq)

theorem Fenced.remove {ch : String} {rest : List String} {removed failed : Bool} (h : Fenced n f)
    (htodo : f.todo = ch :: rest)
    (hlocal : n.removeLocalSubscriptionOnly ch f.session ok = (removed, failed, t)) :
    if removed then
      ∀ ephemeral, Fenced ((t.adjustClusterChannelSubscriptions ch (-1) true).getD t)
        { f with
          todo := rest
          removed := f.removed ++ [(ch, ephemeral)]
          failed := f.failed || failed }
    else Fenced t { f with todo := rest, failed := f.failed || failed } := by
  have hdue := (h.exact ch).removeLocal hlocal
  have hdistinct := h.distinct
  rw [htodo, cons_append, nodup_cons] at hdistinct
  rcases removeLocalSubscriptionOnly_cases hlocal with ⟨rfl, rfl⟩ | ⟨rfl, hsome, haltered⟩
  · exact ⟨h.exact, hdistinct.2, h.gone⟩
  · intro ephemeral
    have hgone := haltered.adjust ch (-1) true
    obtain ⟨r, hr⟩ := Option.isSome_iff_exists.mp hsome
    obtain ⟨hvalid, hplain, -⟩ := lookupSubscriber_eq h.exact hr
    refine ⟨Counted.adjust_getD hdue, ?_, ?_⟩
    · rw [map_append, ← append_assoc]
      exact (perm_append_singleton ch _).nodup_iff.mpr (nodup_cons.mpr hdistinct)
    · intro p hp
      rcases mem_append.mp hp with hp | hp
      · obtain ⟨hvalid', hplain', hnone⟩ := h.gone p hp
        refine ⟨hvalid', hplain', (lookupSubscriber_of_altered ?_ hgone).mpr hnone⟩
        intro heq
        apply hdistinct.1
        rw [← heq]
        exact mem_append_right _ (mem_map_of_mem hp)
      · obtain rfl := mem_singleton.mp hp
        exact ⟨hvalid, hplain, (lookupSubscriber_altered hgone).mpr rfl⟩

theorem Fenced.step (h : Fenced n f) (hretakes : Retakes f ((ok, true) :: outcomes)) :
    match Fencing.step n f ok true with
    | (t, .inl g) => Fenced t g ∧ Retakes g outcomes
    | (t, .inr _) => Exact t := by
  unfold Retakes at hretakes
  unfold Fencing.step
  cases hrestoring : f.restoring with
  | true =>
    rw [hrestoring, if_pos rfl, drop_zero] at hretakes
    obtain rfl : ok = true := hretakes (ok, true) mem_cons_self
    have hrest : ∀ o ∈ outcomes, o.1 = true := fun o ho => hretakes o (mem_cons_of_mem _ ho)
    cases hremoved : f.removed with
    | nil => exact fun ch => (h.exact ch).setSession Session.session_reopen
    | cons p rest =>
      refine ⟨hrestoring ▸ h.restore hremoved rfl, ?_⟩
      simpa [Retakes] using hrest
  | false =>
    rw [hrestoring] at hretakes
    simp only [Bool.false_eq_true, if_false, drop_succ_cons] at hretakes ⊢
    cases htodo : f.todo with
    | nil =>
      cases hfailed : f.failed with
      | true =>
        refine ⟨⟨h.exact, htodo ▸ h.distinct, h.gone⟩, ?_⟩
        simpa [Retakes, htodo] using hretakes
      | false =>
        intro ch
        refine (h.exact ch).of_eq rfl ?_ ?_ rfl (fun _ _ _ _ => rfl)
        all_goals
          simp only [setHub_hub, Hub.removeSessionIfMatches, Hub.removeSession]
          split_ifs <;> rfl
    | cons ch rest =>
      rcases hlocal : n.removeLocalSubscriptionOnly ch f.session ok with ⟨removed, failed, t⟩
      have hremove := h.remove htodo hlocal
      rw [htodo, length_cons] at hretakes
      simp only [hlocal]
      cases removed with
      | false =>
        refine ⟨hrestoring ▸ hremove, ?_⟩
        simpa [Retakes] using hretakes
      | true =>
        refine ⟨hrestoring ▸ hremove _, ?_⟩
        simpa [Retakes] using hretakes

theorem exact_fenceSteps (h : Fenced n f) (hretakes : Retakes f outcomes)
    (hadjusted : ∀ o ∈ outcomes, o.2 = true) (ht : fenceSteps outcomes n f = some t) :
    Exact t := by
  induction outcomes generalizing n f with
  | nil => cases ht
  | cons o outcomes ih =>
    obtain ⟨ok, adjusted⟩ := o
    obtain rfl : adjusted = true := hadjusted (ok, adjusted) mem_cons_self
    have hstep := h.step hretakes
    rw [fenceSteps] at ht
    rcases hresult : Fencing.step n f ok true with ⟨m, g | finished⟩
    · rw [hresult] at ht hstep
      exact ih hstep.1 hstep.2 (fun q hq => hadjusted q (mem_cons_of_mem _ hq)) ht
    · rw [hresult] at ht hstep
      cases ht
      exact hstep

theorem exact_fence {channels : List String} (h : Exact n)
    (hretakes : ∀ o ∈ outcomes.drop (channels.length + 1), o.1 = true)
    (hadjusted : ∀ o ∈ outcomes, o.2 = true)
    (ht : handleClusterTakeoverCommand n c channels outcomes = some t) : Exact t := by
  unfold handleClusterTakeoverCommand at ht
  split_ifs at ht with hclosed hchannels
  · cases ht
    exact h
  · refine exact_fenceSteps ⟨?_, ?_, ?_⟩ ?_ hadjusted ht
    · intro ch
      exact (h ch).setSession rfl
    · simpa [Fencing.start] using hchannels.1
    · nofun
    · simpa [Retakes, Fencing.start] using hretakes

end Fence

section Runs

theorem exact_repairProjections (h : Exact n) : n.repairProjections = n := by
  unfold repairProjections
  rw [if_pos (h "").enabled]
  have hsame : (fun ch => if ch = "" then 0 else n.hub.getActiveChannels ch) = n.projection := by
    funext ch
    rw [h.projection]
    by_cases hch : ch = ""
    · -- the empty name is no valid topic, so nobody holds it
      subst hch
      rw [if_pos rfl, Hub.getActiveChannels, eq_comm, Finset.card_eq_zero]
      apply Finset.eq_empty_of_forall_notMem
      intro sid hsid
      obtain ⟨r, hr⟩ := mem_iff.mp (Finmap.mem_keys.mp hsid)
      exact absurd ((h "").held "" sid r hr).1 (by decide)
    · rw [if_neg hch]
  rw [hsame]

theorem Joined.exact (h : Joined n) : Exact n := by
  intro ch
  refine ⟨h.enabled, h.patterns, ?_, ?_⟩
  · intro x
    simp [Hub.getActiveChannels, h.hub, h.projection]
  · intro x sid r hr
    rw [h.hub] at hr
    cases hr

theorem Exact.step {op : Op} (h : Exact n) (hothers : KeepsIDs n op) (hregular : Regular n op)
    (hstep : step n op = some t) : Exact t := by
  cases op with
  | subscription ch op broker =>
    cases hstep
    cases op with
    | add sub => exact exact_add h hregular
    | remove c => exact exact_remove h
  | restore c restores =>
    simp only [Projection.step, all_eq_true] at hstep
    split_ifs at hstep with hadjusted
    cases hstep
    exact exact_restoreSessionSubscriptions h hregular.1 hregular.2 hadjusted
  | fence c channels outcomes =>
    simp only [Projection.step, all_eq_true] at hstep
    split_ifs at hstep with hadjusted
    exact exact_fence h hregular hadjusted hstep
  | repair =>
    cases hstep
    rw [exact_repairProjections h]
    exact h
  | others sessions registry =>
    cases hstep
    exact fun ch => (h ch).of_eq rfl rfl rfl rfl hothers

/-- After each operation the projection lists the channels of the hub with their subscribers, and
a repair changes nothing. -/
theorem projection_exact {start : Node} {ops : List Op} (hjoined : Joined start)
    (hothers : Transition.Along step KeepsIDs start ops)
    (hregular : Transition.Along step Regular start ops)
    (hrun : Transition.run step start ops = some n) :
    n.projection = n.hub.getActiveChannels ∧ n.repairProjections = n := by
  have hexact : Exact n :=
    invariant_along hjoined.exact
      (fun _ _ _ hm hok hstep => hm.step hok.1 hok.2 hstep) hrun
      (along_and step hothers hregular)
  exact ⟨hexact.projection, exact_repairProjections hexact⟩

theorem joined_idleNode : Joined idleNode := ⟨rfl, rfl, rfl, rfl⟩

def resumedOps : List Op :=
  [.subscription "room" (.add (newSubscriber 0 false)) true,
    .fence 0 ["room"] [(false, true), (true, true), (true, true), (true, true)],
    .subscription "room" (.remove 0) true,
    .restore 1 [⟨"room", false, true, true, true, true⟩], .repair]

theorem projection_exact_resumed : ∃ n, Transition.run step idleNode resumedOps = some n ∧
    n.projection "room" = 1 ∧ n.projection = n.hub.getActiveChannels ∧
      n.repairProjections = n := by
  have hcount : (run step idleNode resumedOps).map (·.projection "room") = some 1 := by
    decide +kernel
  obtain ⟨n, hrun, hroom⟩ := Option.map_eq_some_iff.mp hcount
  refine ⟨n, hrun, hroom, projection_exact joined_idleNode ?_ (by decide +kernel) hrun⟩
  apply along_of_forall
  intro op hop m
  simp only [resumedOps, mem_cons, not_mem_nil, or_false] at hop
  rcases hop with rfl | rfl | rfl | rfl | rfl <;> trivial

/-- A pattern is counted in the projection but is no channel of the hub, and the next repair
deletes it. -/
theorem projection_counts_pattern : Joined idleNode ∧ ∃ n,
    Transition.run step idleNode [.subscription "a.*" (.add (newSubscriber 0 false)) true] =
      some n ∧ n.projection "a.*" = 1 ∧ n.hub.getActiveChannels "a.*" = 0 ∧
      n.repairProjections.projection "a.*" = 0 := by
  have hcounts : (run step idleNode
      [.subscription "a.*" (.add (newSubscriber 0 false)) true]).map (fun n =>
        (n.projection "a.*", n.hub.getActiveChannels "a.*",
          n.repairProjections.projection "a.*")) = some (1, 0, 0) := by
    decide +kernel
  obtain ⟨n, hrun, hn⟩ := Option.map_eq_some_iff.mp hcounts
  simp only [Prod.mk.injEq] at hn
  exact ⟨joined_idleNode, n, hrun, hn⟩

end Runs

end Projection

end MessageLoop
