import MessageLoop.Runtime.Node

/-!
`Fence` of a session that another node has taken over (`internal/session/session.go`), with the
local removal and restore of one subscription it is made of (`internal/runtime/cluster_resume.go`).
-/

namespace MessageLoop

namespace Node

/-- The results say whether the hub had the subscription and whether the broker failed; `ok` is
the broker's outcome. -/
def removeLocalSubscriptionOnly (n : Node) (ch : String) (c : SessionRef) (ok : Bool) :
    Bool × Bool × Node :=
  match n.removeSub ch c with
  | (_, false, _) => (false, false, n)
  | (last, true, t) =>
    let t := t.untrackChannel c ch
    if last then
      match t.brokerUnsubscribe ch ok with
      | some t => (true, false, t)
      | none => (true, true, t)
    else (true, false, t)

/-- The result says whether the restore failed. -/
def restoreLocalSubscription (n : Node) (ch : String) (sub : Subscriber) (ok : Bool) :
    Bool × Node :=
  match n.lookupSubscriber ch sub.session with
  | some _ => (false, n)
  | none =>
    match n.addSub ch sub with
    | .error _ => (true, n)
    | .ok (first, t) =>
      if first then
        match t.brokerSubscribe ch ok with
        | some t => (false, t.forceTrackChannel sub.session ch)
        | none => (true, (t.removeSub ch sub.session).2.2)
      else (false, t.forceTrackChannel sub.session ch)

end Node

/-- A `Fence` after its locked start: the channels it has still to remove, those it has removed
with their ephemeral flags, whether a removal has failed, whether it is undoing them. -/
structure Fencing where
  session : SessionRef
  attachment : Option Attachment
  todo : List String
  removed : List (String × Bool)
  failed : Bool
  restoring : Bool

namespace Fencing

/-- The locked start; `channels` is the order in which it ranges over the tracked set. -/
def start (n : Node) (c : SessionRef) (channels : List String) : Node × Fencing :=
  (n.setSession c (n.sessions c).markClosed,
    ⟨c, (n.sessions c).attachment, channels, [], false, false⟩)

def channel (f : Fencing) : Option String :=
  if f.restoring then f.removed.head?.map Prod.fst else f.todo.head?

/-- One channel, or the end with its result. `ok` is the outcome of the broker call or of the
transport's close, `adjusted` that of the projection. -/
def step (n : Node) (f : Fencing) (ok adjusted : Bool) : Node × (Fencing ⊕ Bool) :=
  if f.restoring then
    match f.removed with
    | (ch, ephemeral) :: rest =>
      let t := (n.restoreLocalSubscription ch (newSubscriber f.session ephemeral) ok).2
      ((t.adjustClusterChannelSubscriptions ch 1 adjusted).getD t, .inl { f with removed := rest })
    | [] => (n.setSession f.session ((n.sessions f.session).reopen f.attachment), .inr false)
  else
    match f.todo with
    | ch :: rest =>
      let ephemeral := ((n.lookupSubscriber ch f.session).map Subscriber.ephemeral).getD false
      match n.removeLocalSubscriptionOnly ch f.session ok with
      | (false, failed, t) => (t, .inl { f with todo := rest, failed := f.failed || failed })
      | (true, failed, t) =>
        ((t.adjustClusterChannelSubscriptions ch (-1) adjusted).getD t,
          .inl { f with
            todo := rest
            removed := f.removed ++ [(ch, ephemeral)]
            failed := f.failed || failed })
    | [] =>
      if f.failed then (n, .inl { f with restoring := true })
      else
        (n.setHub (n.hub.removeSessionIfMatches (n.sessionID f.session) f.session).2,
          .inr (f.attachment = none || ok))

end Fencing

section Entries

namespace Node

def entry (n : Node) (c : SessionRef) (ch : String) : Option Bool × Bool :=
  ((n.lookupSubscriber ch c).map Subscriber.ephemeral, ch ∈ n.tracked c)

structure Altered (c : SessionRef) (ch : String) (n t : Node) (v : Option Bool × Bool) :
    Prop where
  session : t.sessions c = { n.sessions c with subscribedChannels := t.tracked c }
  registry : t.hub.sessions = n.hub.sessions
  entries : t.entry c = Function.update (n.entry c) ch v

variable {n t : Node} {c : SessionRef} {ch : String} {v : Option Bool × Bool} {ok : Bool}

theorem entry_setSession {r : Session} (hid : r.session = (n.sessions c).session)
    (htracked : r.subscribedChannels = (n.sessions c).subscribedChannels) :
    (n.setSession c r).entry c = n.entry c := by
  funext x
  simp only [entry, lookupSubscriber, sessionID, tracked, setSession_sessions, setSession_hub,
    Function.update_self, hid]
  congr

theorem Altered.setInterest (h : Altered c ch n t v) (x : String) (k : Nat) :
    Altered c ch n (t.setInterest x k) v :=
  { h with }

theorem Altered.adjust (h : Altered c ch n t v) (x : String) (delta : Int) (ok : Bool) :
    Altered c ch n ((t.adjustClusterChannelSubscriptions x delta ok).getD t) v := by
  unfold adjustClusterChannelSubscriptions
  split_ifs
  · exact { h with }
  · exact h
  · exact h

theorem altered_removeSub :
    Altered c ch n ((n.removeSub ch c).2.2.untrackChannel c ch) (none, false) := by
  refine ⟨?_, Hub.sessions_removeSub, ?_⟩
  · simp [removeSub, untrackChannel, Session.untrackChannel, tracked]
  · funext x
    have hlookup : ((n.removeSub ch c).2.2.untrackChannel c ch).lookupSubscriber x c =
        if x = ch then none else n.lookupSubscriber x c := by
      unfold lookupSubscriber
      rw [sessionID_untrackChannel]
      exact Hub.lookupSubscriber_removeSub
    have htracked : (n.removeSub ch c).2.2.tracked c = n.tracked c := rfl
    unfold entry
    rw [hlookup, tracked_untrackChannel, htracked]
    by_cases hx : x = ch
    · subst hx
      simp
    · simp [hx]

theorem altered_addSub {sub : Subscriber} {first : Bool}
    (hnone : n.lookupSubscriber ch sub.session = none) (h : n.addSub ch sub = .ok (first, t)) :
    Altered sub.session ch n (t.forceTrackChannel sub.session ch) (some sub.ephemeral, true) := by
  obtain ⟨hub, hadd, rfl⟩ := addSub_eq_ok h
  refine ⟨?_, Hub.sessions_addSub hadd, ?_⟩
  · simp [forceTrackChannel, Session.forceTrackChannel, tracked]
  · funext x
    have hlookup : ((n.setHub hub).forceTrackChannel sub.session ch).lookupSubscriber x
        sub.session = if x = ch then some sub else n.lookupSubscriber x sub.session := by
      unfold lookupSubscriber
      rw [sessionID_forceTrackChannel]
      exact Hub.lookupSubscriber_addSub x hnone hadd
    have htracked : (n.setHub hub).tracked sub.session = n.tracked sub.session := rfl
    unfold entry
    rw [hlookup, tracked_forceTrackChannel, htracked]
    by_cases hx : x = ch
    · subst hx
      simp
    · simp [hx]

theorem removeLocalSubscriptionOnly_cases {removed failed : Bool}
    (h : n.removeLocalSubscriptionOnly ch c ok = (removed, failed, t)) :
    (removed = false ∧ t = n) ∨
      (removed = true ∧ (n.lookupSubscriber ch c).isSome ∧ Altered c ch n t (none, false)) := by
  have hremoved : (n.removeSub ch c).2.1 = (n.lookupSubscriber ch c).isSome :=
    Hub.removeSub_removed
  have haltered : Altered c ch n ((n.removeSub ch c).2.2.untrackChannel c ch) (none, false) :=
    altered_removeSub
  unfold removeLocalSubscriptionOnly at h
  rcases hsub : n.removeSub ch c with ⟨last, found, u⟩
  rw [hsub] at h hremoved haltered
  cases found with
  | false =>
    cases h
    exact .inl ⟨rfl, rfl⟩
  | true =>
    right
    cases last with
    | false =>
      cases h
      exact ⟨rfl, hremoved.symm, haltered⟩
    | true =>
      cases ok <;> cases h
      · exact ⟨rfl, hremoved.symm, haltered⟩
      · exact ⟨rfl, hremoved.symm, haltered.setInterest ch _⟩

theorem removeLocalSubscriptionOnly_fst :
    (n.removeLocalSubscriptionOnly ch c ok).1 = (n.lookupSubscriber ch c).isSome := by
  have hremoved : (n.removeSub ch c).2.1 = (n.lookupSubscriber ch c).isSome :=
    Hub.removeSub_removed
  unfold removeLocalSubscriptionOnly
  rcases hsub : n.removeSub ch c with ⟨last, found, u⟩
  rw [hsub] at hremoved
  rw [← hremoved]
  cases found with
  | false => rfl
  | true =>
    cases last with
    | false => rfl
    | true => cases ok <;> rfl

theorem restoreLocalSubscription_cases {sub : Subscriber} {failed : Bool}
    (hnone : n.lookupSubscriber ch sub.session = none)
    (h : n.restoreLocalSubscription ch sub ok = (failed, t)) :
    (failed = true ∧ t = n) ∨
      (failed = false ∧ ∃ first m k, n.addSub ch sub = .ok (first, m) ∧
        t = (m.setInterest ch k).forceTrackChannel sub.session ch) := by
  unfold restoreLocalSubscription at h
  rw [hnone] at h
  cases hadd : n.addSub ch sub with
  | error e =>
    rw [hadd] at h
    cases h
    exact .inl ⟨rfl, rfl⟩
  | ok r =>
    obtain ⟨first, m⟩ := r
    rw [hadd] at h
    cases first with
    | false =>
      cases h
      exact .inr ⟨rfl, false, m, m.interest ch, rfl, by rw [setInterest_self]⟩
    | true =>
      cases ok with
      | true =>
        cases h
        exact .inr ⟨rfl, true, m, m.interest ch + 1, rfl, rfl⟩
      | false =>
        cases h
        obtain ⟨hub, hhub, rfl⟩ := addSub_eq_ok hadd
        have hback : (n.setHub hub).removeSub ch sub.session =
            (true, true, (n.setHub hub).setHub n.hub) := removeSub_of_added hnone hhub rfl
        exact .inl ⟨rfl, congrArg (fun r => r.2.2) hback⟩

theorem altered_restoreLocalSubscription (sub : Subscriber)
    (hnone : n.lookupSubscriber ch sub.session = none) (hvalid : Topics.validTopic ch) :
    Altered sub.session ch n (n.restoreLocalSubscription ch sub true).2
      (some sub.ephemeral, true) := by
  obtain ⟨hub, hhub⟩ := Hub.addSub_of_valid sub hnone hvalid
  obtain ⟨first, hadd⟩ : ∃ first, n.addSub ch sub = .ok (first, n.setHub hub) := by
    simp [addSub, hhub, Except.map]
  have haltered := altered_addSub hnone hadd
  unfold restoreLocalSubscription
  simp only [hnone, hadd]
  cases first with
  | false => exact haltered
  | true => exact haltered.setInterest ch _

end Node

end Entries

end MessageLoop
