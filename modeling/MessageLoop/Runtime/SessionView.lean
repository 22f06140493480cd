import MessageLoop.Runtime.Subscription

/-!
A node seen from one session: its object, the hub's records of its subscriptions and the object
that is registered under its ID. `AddSubscription` and `RemoveSubscription` change the record and
the tracked set together or not at all, whichever of their calls fail.
-/

namespace MessageLoop

open Topics Function Node

structure SessionView where
  session : Session
  records : String → Option Subscriber
  registered : Option SessionRef

open SessionView

def Node.view (n : Node) (c : SessionRef) : SessionView where
  session := n.sessions c
  records := fun ch => n.lookupSubscriber ch c
  registered := n.hub.lookupSession (n.sessionID c)

namespace SessionView

def setRecord (v : SessionView) (ch : String) (r : Option Subscriber) : SessionView :=
  { v with records := Function.update v.records ch r }

def add (v : SessionView) (ch : String) (sub : Subscriber) : SessionView :=
  { v.setRecord ch (some sub) with session := v.session.forceTrackChannel ch }

def remove (v : SessionView) (ch : String) : SessionView :=
  { v.setRecord ch none with session := v.session.untrackChannel ch }

/-- The session tracks the channels it has records for, and a record that is taken out can be put
back. -/
structure Owned (v : SessionView) (c : SessionRef) : Prop where
  tracked : ∀ ch, ch ∈ v.session.subscribedChannels ↔ (v.records ch).isSome
  held : ∀ ch r, v.records ch = some r → r.session = c ∧ validTopic ch = true

variable {v : SessionView} {c : SessionRef} {ch : String} {sub : Subscriber}

theorem setRecord_setRecord {a b : Option Subscriber} :
    (v.setRecord ch a).setRecord ch b = v.setRecord ch b := by
  simp [setRecord]

theorem setRecord_self {a : Option Subscriber} (h : v.records ch = a) : v.setRecord ch a = v := by
  subst h
  simp [setRecord]

theorem Owned.untracked (h : v.Owned c) (hnone : v.records ch = none) :
    ch ∉ v.session.subscribedChannels := by
  rw [h.tracked, hnone]
  exact Bool.false_ne_true

theorem Owned.remove_of_none (h : v.Owned c) (hnone : v.records ch = none) : v.remove ch = v := by
  simp [remove, setRecord_self hnone, Session.untrackChannel, h.untracked hnone]

theorem Owned.add (h : v.Owned c) (hsub : sub.session = c) (hvalid : validTopic ch = true) :
    (v.add ch sub).Owned c where
  tracked := by
    intro x
    by_cases hx : x = ch
    · subst hx
      simp [add, setRecord, Session.forceTrackChannel]
    · simp [SessionView.add, setRecord, Session.forceTrackChannel, hx, h.tracked]
  held := by
    intro x r hr
    by_cases hx : x = ch
    · subst hx
      simp only [add, setRecord, update_self, Option.some.injEq] at hr
      subst hr
      exact ⟨hsub, hvalid⟩
    · simp only [SessionView.add, setRecord, update_of_ne hx] at hr
      exact h.held x r hr

theorem Owned.remove (h : v.Owned c) : (v.remove ch).Owned c where
  tracked := by
    intro x
    by_cases hx : x = ch
    · subst hx
      simp [remove, setRecord, Session.untrackChannel]
    · simp [SessionView.remove, setRecord, Session.untrackChannel, hx, h.tracked]
  held := by
    intro x r hr
    by_cases hx : x = ch
    · subst hx
      simp [remove, setRecord] at hr
    · simp only [SessionView.remove, setRecord, update_of_ne hx] at hr
      exact h.held x r hr

end SessionView

section Steps
variable {n t : Node} {c : SessionRef} {ch : String} {sub : Subscriber} {v : SessionView}

theorem view_sync {d : SessionRef} {ok : Bool} (h : n.syncClusterSessionState d ok = some t) :
    t.view c = n.view c := by
  unfold syncClusterSessionState at h
  split_ifs at h <;> cases h <;> rfl

theorem view_adjust {delta : Int} {ok : Bool}
    (h : n.adjustClusterChannelSubscriptions ch delta ok = some t) : t.view c = n.view c := by
  unfold adjustClusterChannelSubscriptions at h
  split_ifs at h <;> cases h <;> rfl

theorem view_getD {r : Option Node} (h : ∀ t, r = some t → t.view c = n.view c) :
    (r.getD n).view c = n.view c := by
  cases r with
  | none => rfl
  | some t => exact h t rfl

theorem view_setSession {s : Session} (hid : s.session = (n.sessions c).session) :
    (n.setSession c s).view c = { n.view c with session := s } := by
  simp [view, lookupSubscriber, sessionID, hid]

theorem view_forceTrackChannel : (n.forceTrackChannel c ch).view c =
    { n.view c with session := (n.view c).session.forceTrackChannel ch } :=
  view_setSession rfl

theorem view_untrackChannel : (n.untrackChannel c ch).view c =
    { n.view c with session := (n.view c).session.untrackChannel ch } :=
  view_setSession rfl

theorem view_addSub {first : Bool} (hsub : sub.session = c) (hnone : (n.view c).records ch = none)
    (h : n.addSub ch sub = .ok (first, t)) :
    t.view c = (n.view c).setRecord ch (some sub) ∧ validTopic ch = true := by
  subst hsub
  obtain ⟨hub, hadd, rfl⟩ := addSub_eq_ok h
  constructor
  · have hlookup : (fun x => hub.lookupSubscriber x (n.sessionID sub.session)) =
        update (fun x => n.lookupSubscriber x sub.session) ch (some sub) := by
      funext x
      rw [Hub.lookupSubscriber_addSub x hnone hadd]
      by_cases hx : x = ch
      · subst hx
        rw [if_pos rfl, update_self]
      · rw [if_neg hx, update_of_ne hx]
        rfl
    simp only [view, setRecord, lookupSubscriber, sessionID_setHub,
      setHub_hub, setHub_sessions, Hub.lookupSession,
      Hub.sessions_addSub hadd] at hlookup ⊢
    rw [hlookup]
  · by_contra hinvalid
    rw [Hub.addSub_of_invalid hnone hinvalid] at hadd
    cases hadd

theorem view_removeSub : (n.removeSub ch c).2.2.view c = (n.view c).setRecord ch none := by
  have hlookup : (fun x => (n.hub.removeSub ch (n.sessionID c)).2.2.lookupSubscriber x
      (n.sessionID c)) = update (fun x => n.lookupSubscriber x c) ch none := by
    funext x
    rw [Hub.lookupSubscriber_removeSub]
    by_cases hx : x = ch
    · subst hx
      rw [if_pos rfl, update_self]
    · rw [if_neg hx, update_of_ne hx]
      rfl
  simp only [view, setRecord, removeSub, lookupSubscriber,
    sessionID_setHub, setHub_hub, setHub_sessions, Hub.lookupSession,
    Hub.sessions_removeSub] at hlookup ⊢
  rw [hlookup]

theorem view_readdSub (hsub : sub.session = c) (hnone : (n.view c).records ch = none)
    (hvalid : validTopic ch = true) :
    (n.readdSub ch sub).view c = (n.view c).setRecord ch (some sub) := by
  subst hsub
  obtain ⟨hub, hadd⟩ := Hub.addSub_of_valid sub hnone hvalid
  have hreadd : n.addSub ch sub =
      .ok (decide (isWildcard ch ∨ n.hub.subs ch = ∅), n.readdSub ch sub) := by
    simp [addSub, readdSub, Hub.readd, hadd, Except.map]
  exact (view_addSub rfl hnone hreadd).1

end Steps

section Sagas
variable {n : Node} {c : SessionRef} {ch : String} {sub : Subscriber} {v : SessionView}
variable {i : Nat} {k : SagaStep} {ok undone flag : Bool}

def AddStage (v : SessionView) (c : SessionRef) (ch : String) (sub : Subscriber) :
    Nat → Node × Bool → Prop
  | 0, s => s.1.view c = v
  | 1, s => s.1.view c = v.setRecord ch (some sub) ∧ validTopic ch = true
  | _ + 2, s => s.1.view c = v.add ch sub ∧ validTopic ch = true ∧ v.session.state ≠ .closed

def RemoveStage (v : SessionView) (c : SessionRef) (ch : String) : Nat → Node × Bool → Prop
  | 0, s => s.1.view c = v
  | 1, s => s.1.view c = v.setRecord ch none
  | _ + 2, s => s.1.view c = v.remove ch

section
variable (hk : SagaStep.order[i]? = some k)
include hk

theorem AddStage.commit {flag' : Bool} {t : Node} (hsub : sub.session = c) (hnone : v.records ch = none)
    (hs : AddStage v c ch sub i (n, flag))
    (h : (addStep ch sub ok undone k).commit (n, flag) = .ok (t, flag')) :
    AddStage v c ch sub (i + 1) (t, flag') := by
  have hcommits := addStep_commits h
  match i, hk with
  | 0, rfl =>
    obtain rfl : n.view c = v := hs
    cases hcommits with
    | hub hadd => exact view_addSub hsub hnone hadd
  | 1, rfl =>
    obtain ⟨hview, hvalid⟩ := hs
    cases hcommits with
    | client hopen =>
      have hsession : n.sessions c = v.session := congrArg session hview
      refine ⟨?_, hvalid, ?_⟩
      · show (n.forceTrackChannel sub.session ch).view c = v.add ch sub
        rw [hsub, view_forceTrackChannel, hview]
        rfl
      · rwa [← hsession, ← hsub]
  | 2, rfl =>
    cases hcommits with
    | brokerKept | broker => exact hs
  | 3, rfl =>
    cases hcommits with
    | session hsync => exact ⟨(view_sync hsync).trans hs.1, hs.2⟩
  | 4, rfl =>
    cases hcommits with
    | channel hadjust => exact ⟨(view_adjust hadjust).trans hs.1, hs.2⟩

theorem AddStage.rollback (hsub : sub.session = c) (hnone : v.records ch = none)
    (huntracked : ch ∉ v.session.subscribedChannels) (hs : AddStage v c ch sub (i + 1) (n, flag)) :
    AddStage v c ch sub i ((addStep ch sub ok undone k).rollback (n, flag)) := by
  match i, hk with
  | 0, rfl =>
    show ((n.removeSub ch sub.session).2.2).view c = v
    rw [hsub, view_removeSub, hs.1, setRecord_setRecord,
      setRecord_self hnone]
  | 1, rfl =>
    refine ⟨?_, hs.2.1⟩
    show (n.untrackChannel sub.session ch).view c = v.setRecord ch (some sub)
    rw [hsub, view_untrackChannel, hs.1]
    simp [add, setRecord, Session.forceTrackChannel,
      Session.untrackChannel, huntracked]
  | 2, rfl =>
    show AddStage v c ch sub 2 (if flag then ((n.brokerUnsubscribe ch undone).getD n, flag)
      else (n, flag))
    cases flag with
    | false => exact hs
    | true =>
      cases undone with
      | false | true => exact hs
  | 3, rfl => exact ⟨(view_getD fun _ => view_sync).trans hs.1, hs.2⟩
  | 4, rfl => exact ⟨(view_getD fun _ => view_adjust).trans hs.1, hs.2⟩

theorem RemoveStage.commit {flag' : Bool} {t : Node} (hs : RemoveStage v c ch i (n, flag))
    (h : (removeStep ch c sub ok undone k).commit (n, flag) = .ok (t, flag')) :
    RemoveStage v c ch (i + 1) (t, flag') := by
  have hcommits := removeStep_commits h
  match i, hk with
  | 0, rfl =>
    obtain rfl : n.view c = v := hs
    cases hcommits with
    | hub hremove =>
      have ht : (n.removeSub ch c).2.2 = t := congrArg (fun r => r.2.2) hremove
      rw [← ht]
      exact view_removeSub
  | 1, rfl =>
    cases hcommits with
    | client =>
      show (n.untrackChannel c ch).view c = v.remove ch
      rw [view_untrackChannel, show n.view c = _ from hs]
      rfl
  | 2, rfl =>
    cases hcommits with
    | brokerKept | broker => exact hs
  | 3, rfl =>
    cases hcommits with
    | session hsync => exact (view_sync hsync).trans hs
  | 4, rfl =>
    cases hcommits with
    | channel hadjust => exact (view_adjust hadjust).trans hs

theorem RemoveStage.rollback (hsome : v.records ch = some sub) (hsub : sub.session = c)
    (hvalid : validTopic ch = true) (htracked : ch ∈ v.session.subscribedChannels)
    (hs : RemoveStage v c ch (i + 1) (n, flag)) :
    RemoveStage v c ch i ((removeStep ch c sub ok undone k).rollback (n, flag)) := by
  match i, hk with
  | 0, rfl =>
    show (n.readdSub ch sub).view c = v
    have hview : n.view c = v.setRecord ch none := hs
    have hnone : (n.view c).records ch = none := by
      rw [hview]
      exact update_self ..
    rw [view_readdSub hsub hnone hvalid, hview, setRecord_setRecord,
      setRecord_self hsome]
  | 1, rfl =>
    show (n.forceTrackChannel c ch).view c = v.setRecord ch none
    rw [view_forceTrackChannel, show n.view c = v.remove ch from hs]
    simp [remove, setRecord, Session.forceTrackChannel,
      Session.untrackChannel, htracked]
  | 2, rfl =>
    show RemoveStage v c ch 2 (if flag then ((n.brokerSubscribe ch undone).getD n, flag)
      else (n, flag))
    cases flag with
    | false => exact hs
    | true =>
      cases undone with
      | false | true => exact hs
  | 3, rfl => exact (view_getD fun _ => view_sync).trans hs
  | 4, rfl => exact (view_getD fun _ => view_adjust).trans hs

end

theorem runSubSaga_staged (step : Bool → Bool → SagaStep → SubStep) (out : Outcomes)
    (stage : Nat → Node × Bool → Prop)
    (hcommit : ∀ {i k ok undone s t}, SagaStep.order[i]? = some k → stage i s →
      (step ok undone k).commit s = .ok t → stage (i + 1) t)
    (hrollback : ∀ {i k ok undone s}, SagaStep.order[i]? = some k → stage (i + 1) s →
      stage i ((step ok undone k).rollback s)) (hstart : stage 0 (n, false)) :
    ∃ flag, stage (if (runSubSaga step out n).2.isSome then 0 else 5)
      ((runSubSaga step out n).1, flag) := by
  have horder : ∀ {i : Nat} {s : SubStep}, (SagaStep.order.map fun k =>
      step (out.commit k) (out.rollback k) k)[i]? = some s →
      ∃ k, SagaStep.order[i]? = some k ∧ step (out.commit k) (out.rollback k) k = s := by
    intro i s h
    rw [List.getElem?_map] at h
    exact Option.map_eq_some_iff.mp h
  refine ⟨_, Saga.run_staged (fun i x hx s t hs ht => ?_) (fun i x hx s hs => ?_) hstart⟩
  · obtain ⟨k, hk, rfl⟩ := horder hx
    exact hcommit hk hs ht
  · obtain ⟨k, hk, rfl⟩ := horder hx
    exact hrollback hk hs

theorem view_addSubscription (sub : Subscriber) (out : Outcomes) (h : (n.view c).Owned c)
    (hsub : sub.session = c) (hnone : (n.view c).records ch = none) :
    match addSubscription n ch sub out with
    | (t, none) => t.view c = (n.view c).add ch sub ∧ validTopic ch = true ∧
        (n.view c).session.state ≠ .closed
    | (t, some _) => t.view c = n.view c := by
  obtain ⟨flag, hstage⟩ := runSubSaga_staged (addStep ch sub) out (AddStage (n.view c) c ch sub)
    (fun hk hs ht => AddStage.commit hk hsub hnone hs ht)
    (fun hk hs => AddStage.rollback hk hsub hnone (h.untracked hnone) hs) rfl
  have hlookup : n.lookupSubscriber ch sub.session = none := hsub ▸ hnone
  simp only [addSubscription, hlookup]
  rcases hsaga : runSubSaga (addStep ch sub) out n with ⟨t, _ | e⟩ <;> rw [hsaga] at hstage
  · exact hstage
  · exact hstage

theorem view_removeSubscription (ch : String) (out : Outcomes) (h : (n.view c).Owned c) :
    match removeSubscription n ch c out with
    | (t, none) => t.view c = (n.view c).remove ch
    | (t, some _) => t.view c = n.view c := by
  cases hsome : (n.view c).records ch with
  | none =>
    have hlookup : n.lookupSubscriber ch c = none := hsome
    simp only [removeSubscription, hlookup]
    exact (h.remove_of_none hsome).symm
  | some sub =>
    obtain ⟨hsub, hvalid⟩ := h.held ch sub hsome
    have htracked : ch ∈ (n.view c).session.subscribedChannels := by
      rw [h.tracked, hsome]
      rfl
    obtain ⟨flag, hstage⟩ := runSubSaga_staged (removeStep ch c sub) out
      (RemoveStage (n.view c) c ch) (fun hk hs ht => RemoveStage.commit hk hs ht)
      (fun hk hs => RemoveStage.rollback hk hsome hsub hvalid htracked hs) rfl
    have hlookup : n.lookupSubscriber ch c = some sub := hsome
    simp only [removeSubscription, hlookup]
    rcases hsaga : runSubSaga (removeStep ch c sub) out n with ⟨t, _ | e⟩ <;> rw [hsaga] at hstage
    · exact hstage
    · exact hstage

end Sagas

end MessageLoop
