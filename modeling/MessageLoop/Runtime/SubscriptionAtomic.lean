import MessageLoop.Runtime.Subscription

/-!
When a failed `AddSubscription` or `RemoveSubscription` leaves everything as it was.

The rollback of the `cluster.session` step syncs again, and it runs before the rollbacks of the
hub and of the tracked set: it stores the snapshot it was meant to undo.
-/

namespace MessageLoop

open Topics Finset Node

inductive SubOp where
  | add (sub : Subscriber)
  | remove (c : SessionRef)
  deriving DecidableEq, Repr

open SubOp

def SubOp.target : SubOp → SessionRef
  | .add sub => sub.session
  | .remove c => c

/-- A call in which `commit` tells the commits that succeed and every rollback succeeds. -/
def SubOp.execute (n : Node) (ch : String) (commit : SagaStep → Bool) :
    SubOp → Node × Option (String × StepError)
  | .add sub => addSubscription n ch sub ⟨commit, fun _ => true⟩
  | .remove c => removeSubscription n ch c ⟨commit, fun _ => true⟩

namespace Node

def storedSubscriptions (n : Node) (c : SessionRef) : Option (Finset (String × Bool)) :=
  (n.snapshots (n.sessionID c)).map SessionSnapshot.subscriptions

def Synced (n : Node) (c : SessionRef) : Prop :=
  n.clusterEnabled → (n.storedSubscriptions c).map (·.image Prod.fst) = some (n.tracked c)

structure Unchanged (c : SessionRef) (n t : Node) : Prop where
  hub : t.hub = n.hub
  tracked : t.tracked c = n.tracked c
  interest : t.interest = n.interest
  projection : t.projection = n.projection
  stored : t.storedSubscriptions c = n.storedSubscriptions c

end Node

/-- The call left everything as it was if it failed, and the snapshot in step if it succeeded. -/
def SubOp.Atomic (op : SubOp) (n : Node) (ch : String) (commit : SagaStep → Bool) : Prop :=
  match op.execute n ch commit with
  | (t, some _) => Node.Unchanged op.target n t
  | (t, none) => t.Synced op.target

/-- When adding is atomic: by the position of the first commit that fails. -/
def AddUndone (n : Node) (ch : String) (sub : Subscriber) (commit : SagaStep → Bool) : Prop :=
  let c := sub.session
  if (n.lookupSubscriber ch c).isSome then n.Synced c
  else if ¬ validTopic ch ∨ (n.sessions c).state = .closed then True
  else if (isWildcard ch ∨ n.hub.subs ch = ∅) ∧ commit .broker = false then ch ∉ n.tracked c
  else if n.clusterEnabled ∧ commit .session = false then ch ∉ n.tracked c
  else if n.clusterEnabled ∧ commit .channel = false then
    ch ∉ n.tracked c ∧ n.storedSubscriptions c =
      some (insert (ch, sub.ephemeral) (n.clusterSessionSnapshot c).subscriptions)
  else True

def Node.Readds (n : Node) (ch : String) (c : SessionRef) (subscriber : Subscriber) : Prop :=
  n.sessionID subscriber.session = n.sessionID c ∧ n.hub.Readds ch (n.sessionID c)

def RemoveUndone (n : Node) (ch : String) (c : SessionRef) (commit : SagaStep → Bool) : Prop :=
  match n.lookupSubscriber ch c with
  | none => n.Synced c
  | some subscriber =>
    let last := (n.removeSub ch c).1
    if last ∧ commit .broker = false then ch ∈ n.tracked c ∧ n.Readds ch c subscriber
    else if n.clusterEnabled ∧ commit .session = false then
      ch ∈ n.tracked c ∧ n.Readds ch c subscriber ∧ (last → 0 < n.interest ch)
    else if n.clusterEnabled ∧ commit .channel = false then
      ch ∈ n.tracked c ∧ n.Readds ch c subscriber ∧ (last → 0 < n.interest ch) ∧
        n.storedSubscriptions c =
          some ((n.clusterSessionSnapshot c).subscriptions.filter fun entry => entry.1 ≠ ch)
    else True

def SubOp.Undone (op : SubOp) (n : Node) (ch : String) (commit : SagaStep → Bool) : Prop :=
  match op with
  | .add sub => AddUndone n ch sub commit
  | .remove c => RemoveUndone n ch c commit

namespace Node

variable {n : Node} {ch : String} {c : SessionRef}

def synced (n : Node) (c : SessionRef) (ch : String) (delta : Int) : Node :=
  if n.clusterEnabled then
    (n.setSnapshot (n.sessionID c) (n.clusterSessionSnapshot c)).setProjection ch
      (n.projection ch + delta).toNat
  else n

theorem synced_synced {delta : Int} : (n.synced c ch delta).Synced c := by
  unfold synced Synced
  split_ifs with hen
  · intro _
    simp [storedSubscriptions, sessionID, clusterSessionSnapshot, image_image,
      Function.comp_def, tracked]
  · simp [hen]

theorem unchanged_iff {t : Node} (hhub : t.hub = n.hub) (hinterest : t.interest = n.interest)
    (hprojection : t.projection = n.projection) :
    Unchanged c n t ↔ t.tracked c = n.tracked c ∧
      t.storedSubscriptions c = n.storedSubscriptions c := by
  constructor
  · intro h
    exact ⟨h.tracked, h.stored⟩
  · rintro ⟨htracked, hstored⟩
    exact ⟨hhub, htracked, hinterest, hprojection, hstored⟩

end Node

-- the steps of a saga, evaluated one after the other
attribute [local simp] execute addSubscription removeSubscription runSubSaga Saga.run
  SagaStep.order Saga.resume addStep removeStep external syncClusterSessionState
  brokerSubscribe brokerUnsubscribe adjustClusterChannelSubscriptions
  setInterest_setSnapshot

section Add
variable {n : Node} {ch : String} {sub : Subscriber} {commit : SagaStep → Bool}
variable {first : Bool} {hub : Hub}

theorem addSub_eq (hadd : n.hub.addSub ch (n.sessionID sub.session) sub = .ok (first, hub)) :
    n.addSub ch sub = .ok (first, n.setHub hub) := by
  unfold addSub
  rw [hadd]
  rfl

def added (n : Node) (ch : String) (c : SessionRef) (hub : Hub) : Node :=
  (n.setHub hub).forceTrackChannel c ch

@[simp] theorem added_clusterEnabled {c : SessionRef} :
    (added n ch c hub).clusterEnabled = n.clusterEnabled := rfl

@[simp] theorem added_sessionID {c : SessionRef} :
    (added n ch c hub).sessionID c = n.sessionID c := by
  simp [added]

theorem added_eq {c : SessionRef} (hopen : (n.sessions c).state ≠ .closed) :
    (n.setHub hub).trackChannel c ch = (false, added n ch c hub) :=
  trackChannel_of_open hopen

def interested (n : Node) (ch : String) (c : SessionRef) (hub : Hub) (first : Bool) : Node :=
  if first then (added n ch c hub).setInterest ch ((added n ch c hub).interest ch + 1)
  else added n ch c hub

def undone (m : Node) (ch : String) (c : SessionRef) : Node :=
  ((m.untrackChannel c ch).removeSub ch c).2.2

/-- A rolled back addition: everything is back but what `UntrackChannel` took too much and what
the stored snapshot lists. -/
theorem unchanged_add_iff {m : Node} (hnone : n.lookupSubscriber ch sub.session = none)
    (hadd : n.hub.addSub ch (n.sessionID sub.session) sub = .ok (first, m.hub))
    (hid : m.sessionID sub.session = n.sessionID sub.session)
    (htracked : m.tracked sub.session = insert ch (n.tracked sub.session))
    (hinterest : m.interest = n.interest) (hprojection : m.projection = n.projection) :
    Node.Unchanged sub.session n (undone m ch sub.session) ↔
      ch ∉ n.tracked sub.session ∧
        m.storedSubscriptions sub.session = n.storedSubscriptions sub.session := by
  have hback : (m.untrackChannel sub.session ch).removeSub ch sub.session =
      (first, true, (m.untrackChannel sub.session ch).setHub n.hub) :=
    removeSub_of_added hnone hadd (by simp [hid])
  rw [undone, hback]
  refine (unchanged_iff (n := n) (t := (m.untrackChannel sub.session ch).setHub n.hub) rfl
    hinterest hprojection).trans ?_
  apply and_congr
  · have herase : ((m.untrackChannel sub.session ch).setHub n.hub).tracked sub.session =
        (n.tracked sub.session).erase ch := by
      show (m.untrackChannel sub.session ch).tracked sub.session = _
      rw [tracked_untrackChannel, htracked, erase_insert_eq_erase]
    rw [herase, erase_eq_self]
  · have hstored : ((m.untrackChannel sub.session ch).setHub n.hub).storedSubscriptions
        sub.session = m.storedSubscriptions sub.session := by
      unfold storedSubscriptions
      rw [sessionID_setHub, sessionID_untrackChannel]
      rfl
    rw [hstored]

section Steps
variable (hnone : n.lookupSubscriber ch sub.session = none)
  (hadd : n.hub.addSub ch (n.sessionID sub.session) sub = .ok (first, hub))

section Calls
variable (hopen : (n.sessions sub.session).state ≠ .closed)
include hnone hadd hopen

theorem execute_add : (add sub).execute n ch commit =
    if first ∧ commit .broker = false then
      (undone (added n ch sub.session hub) ch sub.session, some ("broker.Subscribe", .unavailable))
    else if n.clusterEnabled ∧ commit .session = false then
      (undone (added n ch sub.session hub) ch sub.session, some ("cluster.session", .unavailable))
    else if n.clusterEnabled ∧ commit .channel = false then
      (undone ((added n ch sub.session hub).setSnapshot (n.sessionID sub.session)
        ((added n ch sub.session hub).clusterSessionSnapshot sub.session)) ch sub.session,
        some ("cluster.channel", .unavailable))
    else ((interested n ch sub.session hub first).synced sub.session ch 1, none) := by
  have hhub := addSub_eq hadd
  have hclient : (n.setHub hub).trackChannel sub.session ch = (false, added n ch sub.session hub) :=
    added_eq hopen
  split_ifs with hbroker hsession hchannel
  · simp [hnone, hhub, hclient, hbroker, undone]
  all_goals
    have hsubscribed : first = true → commit .broker = true := by simpa using hbroker
  · cases first <;> simp [hnone, hhub, hclient, hsubscribed, hsession, undone]
  all_goals
    have hstored : n.clusterEnabled = true → commit .session = true := by simpa using hsession
  -- the snapshot stays stored when the counter of the channel is not reached
  · cases first <;> simp [hnone, hhub, hclient, hsubscribed, hstored, hchannel, undone]
  · have hcounted : n.clusterEnabled = true → commit .channel = true := by simpa using hchannel
    cases hen : n.clusterEnabled <;> cases first <;>
      simp [hnone, hhub, hclient, hsubscribed, hstored, hcounted, hen, synced, interested]

end Calls

include hnone hadd

theorem lookupSubscriber_added {ch' : String} :
    (added n ch sub.session hub).lookupSubscriber ch' sub.session =
      if ch' = ch then some sub else n.lookupSubscriber ch' sub.session := by
  unfold lookupSubscriber
  rw [added_sessionID]
  exact Hub.lookupSubscriber_addSub _ hnone hadd

theorem snapshot_added (hch : ch ∉ n.tracked sub.session) :
    ((added n ch sub.session hub).clusterSessionSnapshot sub.session).subscriptions =
      insert (ch, sub.ephemeral) (n.clusterSessionSnapshot sub.session).subscriptions := by
  have htracked : ((added n ch sub.session hub).sessions sub.session).subscribedChannels =
      insert ch (n.tracked sub.session) := tracked_forceTrackChannel
  unfold clusterSessionSnapshot
  simp only [htracked, image_insert, lookupSubscriber_added hnone hadd, if_true,
    Option.map_some, Option.getD_some]
  congr 1
  apply image_congr
  intro x hx
  have hne : x ≠ ch := fun he => hch (he ▸ hx)
  simp [hne]

theorem unchanged_added_iff :
    Node.Unchanged sub.session n (undone (added n ch sub.session hub) ch sub.session) ↔
      ch ∉ n.tracked sub.session := by
  have hstored : (added n ch sub.session hub).storedSubscriptions sub.session =
      n.storedSubscriptions sub.session := by
    unfold storedSubscriptions
    rw [added_sessionID]
    rfl
  rw [unchanged_add_iff (m := added n ch sub.session hub) hnone hadd added_sessionID
    tracked_forceTrackChannel rfl rfl, hstored]
  exact and_iff_left rfl

end Steps

/-- The hub step fails on an invalid topic, the client step on a closed session; both leave the
node as it was. -/
theorem execute_add_of_refused (commit : SagaStep → Bool)
    (hnone : n.lookupSubscriber ch sub.session = none)
    (hrefused : ¬ validTopic ch ∨ (n.sessions sub.session).state = .closed) :
    ∃ e, (add sub).execute n ch commit = (n, some e) := by
  by_cases hvalid : validTopic ch
  · have hclosed := hrefused.resolve_left (fun hinvalid => hinvalid hvalid)
    obtain ⟨hub, hadd⟩ := Hub.addSub_of_valid sub hnone hvalid
    have htrack : (n.setHub hub).trackChannel sub.session ch = (true, n.setHub hub) :=
      trackChannel_of_closed hclosed
    have hback : (n.setHub hub).removeSub ch sub.session = (_, true, (n.setHub hub).setHub n.hub) :=
      removeSub_of_added hnone hadd rfl
    refine ⟨("track.client", .clientClosed), ?_⟩
    simp [execute, addSubscription, hnone, runSubSaga, Saga.run, SagaStep.order,
      Saga.resume, addStep, addSub_eq hadd, htrack, hback]
  · have hadd : n.addSub ch sub = .error .badTopic := by
      unfold addSub
      rw [Hub.addSub_of_invalid hnone hvalid]
      rfl
    refine ⟨("hub.addSub", .topic .badTopic), ?_⟩
    simp [execute, addSubscription, hnone, runSubSaga, Saga.run, SagaStep.order,
      Saga.resume, addStep, hadd]

theorem add_atomic_iff : (add sub).Atomic n ch commit ↔ AddUndone n ch sub commit := by
  unfold SubOp.Atomic AddUndone
  cases hnone : n.lookupSubscriber ch sub.session with
  | some subscriber => simp [execute, addSubscription, hnone, target]
  | none =>
    simp only [hnone, Option.isSome_none, Bool.false_eq_true, if_false, target]
    by_cases hrefused : ¬ validTopic ch ∨ (n.sessions sub.session).state = .closed
    · obtain ⟨e, he⟩ := execute_add_of_refused commit hnone hrefused
      rw [he, if_pos hrefused]
      exact iff_of_true ⟨rfl, rfl, rfl, rfl, rfl⟩ trivial
    obtain ⟨hvalid, hopen⟩ := not_or.mp hrefused
    obtain ⟨hub, hadd⟩ := Hub.addSub_of_valid sub hnone (not_not.mp hvalid)
    rw [execute_add hnone hadd hopen, if_neg hrefused]
    simp only [decide_eq_true_eq]
    split_ifs with hbroker hsession hchannel
    · exact unchanged_added_iff hnone hadd
    · exact unchanged_added_iff hnone hadd
    · refine (unchanged_add_iff (m := (added n ch sub.session hub).setSnapshot _ _) hnone hadd
        (by simp) tracked_forceTrackChannel rfl rfl).trans ?_
      refine and_congr_right (fun hch => ?_)
      have hstored : ((added n ch sub.session hub).setSnapshot (n.sessionID sub.session)
          ((added n ch sub.session hub).clusterSessionSnapshot sub.session)).storedSubscriptions
            sub.session = some (insert (ch, sub.ephemeral)
              (n.clusterSessionSnapshot sub.session).subscriptions) := by
        simp [storedSubscriptions, snapshot_added hnone hadd hch]
      rw [hstored]
      exact eq_comm
    · exact iff_of_true synced_synced trivial

end Add

section Remove
variable {n m k : Node} {ch : String} {c : SessionRef} {commit : SagaStep → Bool}
variable {subscriber : Subscriber} {last : Bool}

/-- The broker's count after a last unsubscription and the subscription that undoes it. -/
def resubscribed (n : Node) (ch : String) (last : Bool) : Node :=
  if last then n.setInterest ch (n.interest ch - 1 + 1) else n

def released (m : Node) (ch : String) (c : SessionRef) (last : Bool) : Node :=
  if last then
    (m.untrackChannel c ch).setInterest ch ((m.untrackChannel c ch).interest ch - 1)
  else m.untrackChannel c ch

def redone (k : Node) (ch : String) (c : SessionRef) (subscriber : Subscriber) : Node :=
  (k.forceTrackChannel c ch).readdSub ch subscriber

theorem eq_setHub_of_removeSub (hremove : n.removeSub ch c = (last, true, m)) :
    m = n.setHub (n.hub.removeSub ch (n.sessionID c)).2.2 := by
  have hm := congrArg (fun r => r.2.2) hremove
  exact hm.symm

theorem insert_erase_eq_iff {T : Finset String} : insert ch (T.erase ch) = T ↔ ch ∈ T := by
  constructor
  · intro h
    rw [← h]
    exact mem_insert_self ch _
  · exact insert_erase

theorem resubscribed_interest_iff (ch : String) (last : Bool) (hinterest : m.interest = n.interest) :
    (resubscribed m ch last).interest = n.interest ↔ (last → 0 < n.interest ch) := by
  cases last with
  | false => simp [resubscribed, hinterest]
  | true =>
    have hupdate : (resubscribed m ch true).interest =
        Function.update n.interest ch (n.interest ch - 1 + 1) := by
      rw [← hinterest]
      rfl
    rw [hupdate, Function.update_eq_self_iff]
    constructor
    · intro hback _
      omega
    · intro hpos
      have := hpos rfl
      omega

theorem snapshot_removed (hm : m = n.setHub (n.hub.removeSub ch (n.sessionID c)).2.2) :
    ((m.untrackChannel c ch).clusterSessionSnapshot c).subscriptions =
      (n.clusterSessionSnapshot c).subscriptions.filter fun entry => entry.1 ≠ ch := by
  have htracked : ((m.untrackChannel c ch).sessions c).subscribedChannels =
      (n.tracked c).erase ch := by
    subst hm
    exact tracked_untrackChannel
  have hlookup : ∀ x, (m.untrackChannel c ch).lookupSubscriber x c =
      if x = ch then none else n.lookupSubscriber x c := by
    intro x
    unfold lookupSubscriber
    rw [sessionID_untrackChannel, hm]
    exact Hub.lookupSubscriber_removeSub
  unfold clusterSessionSnapshot
  simp only [htracked, hlookup]
  ext ⟨x, ephemeral⟩
  simp only [mem_image, mem_erase, mem_filter, Prod.mk.injEq]
  constructor
  · rintro ⟨y, ⟨hne, hy⟩, rfl, rfl⟩
    exact ⟨⟨y, hy, rfl, by simp [hne]⟩, hne⟩
  · rintro ⟨⟨y, hy, rfl, rfl⟩, hne⟩
    exact ⟨y, ⟨hne, hy⟩, rfl, by simp [hne]⟩

theorem resubscribed_eq (m : Node) (ch : String) (last : Bool) :
    ∃ k, resubscribed m ch last = m.setInterest ch k := by
  cases last with
  | false => exact ⟨m.interest ch, setInterest_self.symm⟩
  | true => exact ⟨_, rfl⟩

section
variable (hsome : n.lookupSubscriber ch c = some subscriber)
include hsome

theorem exists_removeSub : ∃ last m, n.removeSub ch c = (last, true, m) := by
  have hremoved : (n.removeSub ch c).2.1 = true := by
    show (n.hub.removeSub ch (n.sessionID c)).2.1 = true
    rw [Hub.removeSub_removed]
    exact Option.isSome_iff_exists.mpr ⟨subscriber, hsome⟩
  exact ⟨_, _, by rw [← hremoved]⟩

theorem execute_remove
    (hremove : n.removeSub ch c = (last, true, m)) (hen : m.clusterEnabled = n.clusterEnabled) :
    (remove c).execute n ch commit =
    if last ∧ commit .broker = false then
      (redone (m.untrackChannel c ch) ch c subscriber, some ("broker.Unsubscribe", .unavailable))
    else if n.clusterEnabled ∧ commit .session = false then
      (redone (resubscribed (m.untrackChannel c ch) ch last) ch c subscriber,
        some ("cluster.session", .unavailable))
    else if n.clusterEnabled ∧ commit .channel = false then
      (redone ((resubscribed (m.untrackChannel c ch) ch last).setSnapshot (m.sessionID c)
        ((m.untrackChannel c ch).clusterSessionSnapshot c)) ch c subscriber,
        some ("cluster.channel", .unavailable))
    else ((released m ch c last).synced c ch (-1), none) := by
  have hen' : (m.untrackChannel c ch).clusterEnabled = n.clusterEnabled := hen
  split_ifs with hbroker hsession hchannel
  · simp [hsome, hremove, hbroker, redone]
  all_goals
    have hreleased : last = true → commit .broker = true := by simpa using hbroker
  · cases last <;> simp [hsome, hremove, hreleased, hen', hsession, resubscribed, redone]
  all_goals
    have hstored : n.clusterEnabled = true → commit .session = true := by simpa using hsession
  · cases last <;> simp [hsome, hremove, hreleased, hen', hstored, hchannel, resubscribed, redone]
  · have hcounted : n.clusterEnabled = true → commit .channel = true := by simpa using hchannel
    cases hcase : n.clusterEnabled <;> cases last <;>
      simp [hsome, hremove, hreleased, hen', hstored, hcounted, hcase, synced, released]

theorem hub_readdSub_iff :
    (n.hub.removeSub ch (n.sessionID c)).2.2.readd ch (n.sessionID subscriber.session)
      subscriber = n.hub ↔ n.Readds ch c subscriber := by
  unfold Node.Readds
  by_cases hid : n.sessionID subscriber.session = n.sessionID c
  · rw [hid, Hub.readd_removeSub_iff hsome]
    simp
  · apply iff_of_false
    · intro hback
      have hlookup := congrArg (·.lookupSubscriber ch (n.sessionID c)) hback
      simp only [Hub.lookupSubscriber_readd_ne hid, Hub.lookupSubscriber_removeSub, if_true]
        at hlookup
      exact absurd (hlookup.trans hsome) (by simp)
    · exact fun hreadds => hid hreadds.1

theorem unchanged_remove_iff (hhub : k.hub = (n.hub.removeSub ch (n.sessionID c)).2.2)
    (hid : ∀ c', k.sessionID c' = n.sessionID c') (htracked : k.tracked c = (n.tracked c).erase ch)
    (hprojection : k.projection = n.projection) :
    Node.Unchanged c n (redone k ch c subscriber) ↔
      ch ∈ n.tracked c ∧ n.Readds ch c subscriber ∧ k.interest = n.interest ∧
        k.storedSubscriptions c = n.storedSubscriptions c := by
  have hback : (redone k ch c subscriber).hub =
      (n.hub.removeSub ch (n.sessionID c)).2.2.readd ch (n.sessionID subscriber.session)
        subscriber := by
    rw [← hhub, ← hid subscriber.session]
    simp [redone, readdSub]
    rfl
  have htr : (redone k ch c subscriber).tracked c =
      insert ch ((n.tracked c).erase ch) := by
    rw [← htracked]
    exact tracked_forceTrackChannel
  have hstored : (redone k ch c subscriber).storedSubscriptions c =
      k.storedSubscriptions c := by
    have hsid : (redone k ch c subscriber).sessionID c =
        k.sessionID c := sessionID_forceTrackChannel
    unfold storedSubscriptions
    rw [hsid]
    rfl
  constructor
  · intro h
    exact ⟨insert_erase_eq_iff.mp (htr.symm.trans h.tracked),
      (hub_readdSub_iff hsome).mp (hback.symm.trans h.hub), h.interest,
      hstored.symm.trans h.stored⟩
  · rintro ⟨hch, hreadds, hinterest, hst⟩
    exact ⟨hback.trans ((hub_readdSub_iff hsome).mpr hreadds),
      htr.trans (insert_erase_eq_iff.mpr hch), hinterest, hprojection, hstored.trans hst⟩

theorem unchanged_resubscribed_iff
    (hm : m = n.setHub (n.hub.removeSub ch (n.sessionID c)).2.2)
    (hk : ∃ i, k = (m.untrackChannel c ch).setInterest ch i ∨
      ∃ snapshot, k = ((m.untrackChannel c ch).setInterest ch i).setSnapshot (m.sessionID c)
        snapshot) :
    Node.Unchanged c n (redone k ch c subscriber) ↔
      ch ∈ n.tracked c ∧ n.Readds ch c subscriber ∧ k.interest = n.interest ∧
        k.storedSubscriptions c = n.storedSubscriptions c := by
  have hid : ∀ c', (m.untrackChannel c ch).sessionID c' = n.sessionID c' := by
    intro c'
    rw [sessionID_untrackChannel, hm]
    rfl
  have htracked : (m.untrackChannel c ch).tracked c = (n.tracked c).erase ch := by
    rw [tracked_untrackChannel, hm]
    rfl
  obtain ⟨i, rfl | ⟨snapshot, rfl⟩⟩ := hk
  · exact unchanged_remove_iff hsome (by rw [hm]; rfl) hid htracked (by rw [hm]; rfl)
  · exact unchanged_remove_iff hsome (by rw [hm]; rfl) hid htracked (by rw [hm]; rfl)

end

theorem remove_atomic_iff : (remove c).Atomic n ch commit ↔ RemoveUndone n ch c commit := by
  unfold SubOp.Atomic RemoveUndone
  cases hsome : n.lookupSubscriber ch c with
  | none => simp [execute, removeSubscription, hsome, target]
  | some subscriber =>
    obtain ⟨last, m, hremove⟩ := exists_removeSub hsome
    have hm := eq_setHub_of_removeSub hremove
    have hen : m.clusterEnabled = n.clusterEnabled := by rw [hm]; rfl
    have hinterest : (m.untrackChannel c ch).interest = n.interest := by rw [hm]; rfl
    have hsid : (m.untrackChannel c ch).sessionID c = n.sessionID c := by
      rw [sessionID_untrackChannel, hm]
      rfl
    have hstored : ∀ i, ((m.untrackChannel c ch).setInterest ch i).storedSubscriptions c =
        n.storedSubscriptions c := by
      intro i
      unfold storedSubscriptions
      rw [sessionID_setInterest, hsid, hm]
      rfl
    obtain ⟨i, hi⟩ := resubscribed_eq (m.untrackChannel c ch) ch last
    have hback := resubscribed_interest_iff ch last hinterest
    simp only [hremove, target, execute_remove hsome hremove hen]
    split_ifs with hbroker hsession hchannel
    · refine (unchanged_resubscribed_iff hsome hm
        ⟨_, .inl setInterest_self.symm⟩).trans ?_
      have hsame := hstored ((m.untrackChannel c ch).interest ch)
      rw [setInterest_self] at hsame
      simp [hinterest, hsame]
    · refine (unchanged_resubscribed_iff hsome hm ⟨i, .inl hi⟩).trans ?_
      have hsame := hstored i
      rw [← hi] at hsame
      simp [hback, hsame]
    · refine (unchanged_resubscribed_iff hsome hm ⟨i, .inr ⟨_, by rw [hi]⟩⟩).trans ?_
      have hnew : ((resubscribed (m.untrackChannel c ch) ch last).setSnapshot (m.sessionID c)
          ((m.untrackChannel c ch).clusterSessionSnapshot c)).storedSubscriptions c =
            some ((n.clusterSessionSnapshot c).subscriptions.filter fun entry => entry.1 ≠ ch) := by
        rw [← snapshot_removed hm, hi]
        simp [storedSubscriptions]
      have hkept : ((resubscribed (m.untrackChannel c ch) ch last).setSnapshot (m.sessionID c)
          ((m.untrackChannel c ch).clusterSessionSnapshot c)).interest =
            (resubscribed (m.untrackChannel c ch) ch last).interest := rfl
      rw [hnew, hkept, hback, eq_comm (a := some _)]
    · exact iff_of_true synced_synced trivial

end Remove

def idleNode : Node :=
  { new true fun _ => { Session.newClient "s1" ⟨0, 0, .protobuf⟩ with state := .attached } with
    snapshots := fun sid => if sid = "s1" then some ⟨"", "", "", ∅, fun _ => 0⟩ else none }

end MessageLoop
