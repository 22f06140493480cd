import MessageLoop.Lib.Maps
import MessageLoop.Topics.Namespace
import MessageLoop.Session.State

/-!
The hub's registries (`internal/session/hub.go`): sessions by ID, exact subscriptions by channel
and session ID, wildcard subscriptions by the key `sessionID:pattern`. Shards are flattened.
-/

namespace MessageLoop

open Topics Finmap

/-- `deliveredOffset` is the highest offset delivered on this exact channel, zero if none. -/
structure Subscriber where
  session : SessionRef
  ephemeral : Bool
  deliveredOffset : Nat
  deriving DecidableEq, Repr

def newSubscriber (session : SessionRef) (ephemeral : Bool) : Subscriber :=
  ⟨session, ephemeral, 0⟩

abbrev Subscribers := Finmap fun _ : String => Subscriber

structure Hub where
  sessions : Finmap fun _ : String => SessionRef
  subs : String → Subscribers
  wcSubs : Finmap fun _ : String => String × Subscriber

namespace Hub

def empty : Hub := ⟨∅, fun _ => ∅, ∅⟩

def wildcardKey (sid ch : String) : String :=
  sid ++ ":" ++ ch

/-- `first` of the result says that the caller has to register broker interest: the channel had
no subscriber, or the wildcard subscription is new. -/
def addSub (h : Hub) (ch sid : String) (sub : Subscriber) : Except TopicError (Bool × Hub) :=
  if isWildcard ch then
    if wildcardKey sid ch ∈ h.wcSubs then .ok (false, h)
    else if validTopic ch then
      .ok (true, { h with wcSubs := h.wcSubs.insert (wildcardKey sid ch) (ch, sub) })
    else .error .badTopic
  else if validTopic ch then
    .ok (h.subs ch = ∅, { h with subs := Function.update h.subs ch ((h.subs ch).insert sid sub) })
  else .error .badTopic

/-- `AddSub` where the caller drops the error. -/
def readd (h : Hub) (ch sid : String) (sub : Subscriber) : Hub :=
  match h.addSub ch sid sub with
  | .ok r => r.2
  | .error _ => h

/-- The results are `last`, `removed` and the new hub. -/
def removeSub (h : Hub) (ch sid : String) : Bool × Bool × Hub :=
  if isWildcard ch then
    if wildcardKey sid ch ∈ h.wcSubs then
      (true, true, { h with wcSubs := h.wcSubs.erase (wildcardKey sid ch) })
    else (true, false, h)
  else if sid ∈ h.subs ch then
    ((h.subs ch).erase sid = ∅, true,
      { h with subs := Function.update h.subs ch ((h.subs ch).erase sid) })
  else (true, false, h)

def lookupSubscriber (h : Hub) (ch sid : String) : Option Subscriber :=
  if isWildcard ch then (h.wcSubs.lookup (wildcardKey sid ch)).map Prod.snd
  else (h.subs ch).lookup sid

def lookupSession (h : Hub) (sid : String) : Option SessionRef :=
  h.sessions.lookup sid

def add (h : Hub) (sid : String) (c : SessionRef) : Hub :=
  if sid = "" then h else { h with sessions := h.sessions.insert sid c }

def removeSession (h : Hub) (sid : String) : Hub :=
  { h with sessions := h.sessions.erase sid }

def removeSessionIfMatches (h : Hub) (sid : String) (c : SessionRef) : Bool × Hub :=
  if h.sessions.lookup sid = some c then (true, h.removeSession sid) else (false, h)

section Lookup
variable {h h' : Hub} {ch ch' sid : String} {sub : Subscriber} {first : Bool}

theorem wildcardKey_inj : wildcardKey sid ch = wildcardKey sid ch' ↔ ch = ch' := by
  simp [wildcardKey, String.append_assoc]

theorem wildcardKey_inj_of_namespaceOf {sid' ns ns' : String} (hch : namespaceOf ch = .ok ns)
    (hch' : namespaceOf ch' = .ok ns') (heq : wildcardKey sid ch = wildcardKey sid' ch') :
    sid = sid' ∧ ch = ch' := by
  have hchars : sid.toList ++ ':' :: ch.toList = sid'.toList ++ ':' :: ch'.toList := by
    simpa [wildcardKey] using congrArg String.toList heq
  obtain ⟨hsid, rfl⟩ := append_channel_inj hch hch' hchars
  exact ⟨String.toList_inj.mp hsid, rfl⟩

theorem lookupSubscriber_empty (ch sid : String) : empty.lookupSubscriber ch sid = none := by
  unfold lookupSubscriber empty
  split_ifs <;> rfl

theorem not_mem_of_lookup_none (hw : isWildcard ch) (hnone : h.lookupSubscriber ch sid = none) :
    wildcardKey sid ch ∉ h.wcSubs := by
  simpa [lookupSubscriber, hw, lookup_eq_none] using hnone

theorem sessions_addSub (hadd : h.addSub ch sid sub = .ok (first, h')) :
    h'.sessions = h.sessions := by
  unfold addSub at hadd
  split_ifs at hadd <;> cases hadd <;> rfl

theorem sessions_removeSub : (h.removeSub ch sid).2.2.sessions = h.sessions := by
  unfold removeSub
  split_ifs <;> rfl

theorem removeSub_removed : (h.removeSub ch sid).2.1 = (h.lookupSubscriber ch sid).isSome := by
  unfold removeSub lookupSubscriber
  split_ifs with hw hmem hmem
  · obtain ⟨r, hr⟩ := mem_iff.mp hmem
    simp [hr]
  · simp [lookup_eq_none.mpr hmem]
  · obtain ⟨r, hr⟩ := mem_iff.mp hmem
    simp [hr]
  · simp [lookup_eq_none.mpr hmem]

theorem lookupSubscriber_removeSub :
    (h.removeSub ch sid).2.2.lookupSubscriber ch' sid =
      if ch' = ch then none else h.lookupSubscriber ch' sid := by
  by_cases hch : ch' = ch
  · subst hch
    unfold removeSub lookupSubscriber
    split_ifs with hw hmem hmem <;> simp_all [lookup_eq_none]
  · rw [if_neg hch]
    have hkey : wildcardKey sid ch' ≠ wildcardKey sid ch := fun hk => hch (wildcardKey_inj.mp hk)
    unfold removeSub lookupSubscriber
    split_ifs <;> simp [lookup_erase_ne hkey, Function.update_of_ne hch]

theorem lookupSubscriber_addSub_of_ne (hne : ch' ≠ ch)
    (hadd : h.addSub ch sid sub = .ok (first, h')) :
    h'.lookupSubscriber ch' sid = h.lookupSubscriber ch' sid := by
  have hkey : wildcardKey sid ch' ≠ wildcardKey sid ch := fun hk => hne (wildcardKey_inj.mp hk)
  unfold addSub at hadd
  unfold lookupSubscriber
  split_ifs at hadd <;> cases hadd <;> split_ifs <;>
    simp [lookup_insert_of_ne _ hkey, Function.update_of_ne hne]

theorem lookupSubscriber_addSub (ch' : String) (hnone : h.lookupSubscriber ch sid = none)
    (hadd : h.addSub ch sid sub = .ok (first, h')) :
    h'.lookupSubscriber ch' sid = if ch' = ch then some sub else h.lookupSubscriber ch' sid := by
  by_cases hch : ch' = ch
  · subst hch
    rw [if_pos rfl]
    unfold addSub at hadd
    split_ifs at hadd with hw hmem hvalid hvalid
    · exact absurd hmem (not_mem_of_lookup_none hw hnone)
    · cases hadd
      simp [lookupSubscriber, hw]
    · cases hadd
      simp [lookupSubscriber, hw]
  · rw [if_neg hch]
    exact lookupSubscriber_addSub_of_ne hch hadd

theorem lookupSubscriber_addSub_or (ch' : String) (hadd : h.addSub ch sid sub = .ok (first, h')) :
    h'.lookupSubscriber ch' sid = h.lookupSubscriber ch' sid ∨
      h'.lookupSubscriber ch' sid = some sub := by
  cases hlookup : h.lookupSubscriber ch sid with
  | none =>
    rw [lookupSubscriber_addSub ch' hlookup hadd]
    split_ifs
    · exact .inr rfl
    · exact .inl rfl
  | some r =>
    by_cases hch : ch' = ch
    · subst hch
      unfold addSub at hadd
      unfold lookupSubscriber
      split_ifs at hadd with hw hmem <;> cases hadd <;> simp [hw]
    · exact .inl (lookupSubscriber_addSub_of_ne hch hadd)

theorem addSub_of_invalid (hnone : h.lookupSubscriber ch sid = none) (hinvalid : ¬ validTopic ch) :
    h.addSub ch sid sub = .error .badTopic := by
  unfold addSub
  split_ifs with hw hmem
  · exact absurd hmem (not_mem_of_lookup_none hw hnone)
  · rfl
  · rfl

theorem addSub_of_valid (sub : Subscriber) (hnone : h.lookupSubscriber ch sid = none)
    (hvalid : validTopic ch) :
    ∃ h', h.addSub ch sid sub = .ok (decide (isWildcard ch ∨ h.subs ch = ∅), h') := by
  unfold addSub
  split_ifs with hw hmem
  · exact absurd hmem (not_mem_of_lookup_none hw hnone)
  · simp [hw]
  · simp [hw]

/-- Removing a subscription that was added to the hub gives the hub back, and it is the last one
of its channel exactly if it was the first. -/
theorem removeSub_addSub (hnone : h.lookupSubscriber ch sid = none)
    (hadd : h.addSub ch sid sub = .ok (first, h')) : h'.removeSub ch sid = (first, true, h) := by
  unfold addSub at hadd
  split_ifs at hadd with hw hmem hvalid hvalid
  · exact absurd hmem (not_mem_of_lookup_none hw hnone)
  · cases hadd
    simp [removeSub, hw, erase_insert_of_notMem (not_mem_of_lookup_none hw hnone)]
  · cases hadd
    have hmem : sid ∉ h.subs ch := by
      simpa [lookupSubscriber, hw, lookup_eq_none] using hnone
    simp [removeSub, hw, erase_insert_of_notMem hmem]

/-- What makes a removed subscription fit back into the hub: a valid topic, and for a pattern a
record that was made for this pattern. -/
def Readds (h : Hub) (ch sid : String) : Prop :=
  validTopic ch ∧
    (isWildcard ch → (h.wcSubs.lookup (wildcardKey sid ch)).map Prod.fst = some ch)

theorem addSub_removeSub (hsome : h.lookupSubscriber ch sid = some sub) (hback : h.Readds ch sid) :
    (h.removeSub ch sid).2.2.addSub ch sid sub = .ok ((h.removeSub ch sid).1, h) := by
  obtain ⟨hvalid, hpattern⟩ := hback
  unfold lookupSubscriber at hsome
  split_ifs at hsome with hw
  · obtain ⟨⟨pattern, r⟩, hr, rfl⟩ := Option.map_eq_some_iff.mp hsome
    have hmem : wildcardKey sid ch ∈ h.wcSubs := mem_of_lookup_eq_some hr
    obtain rfl : pattern = ch := by simpa [hr] using hpattern hw
    simp [removeSub, addSub, hw, hmem, hvalid, insert_erase_of_lookup hr]
  · have hmem : sid ∈ h.subs ch := mem_of_lookup_eq_some hsome
    simp [removeSub, addSub, hw, hmem, hvalid, insert_erase_of_lookup hsome]

theorem readd_removeSub_iff (hsome : h.lookupSubscriber ch sid = some sub) :
    (h.removeSub ch sid).2.2.readd ch sid sub = h ↔ h.Readds ch sid := by
  constructor
  · intro hback
    have hlookup := congrArg (·.lookupSubscriber ch sid) hback
    simp only [hsome] at hlookup
    have hvalid : validTopic ch := by
      by_contra hinvalid
      have hrefused : (h.removeSub ch sid).2.2.readd ch sid sub = (h.removeSub ch sid).2.2 := by
        unfold readd addSub
        split_ifs <;> rfl
      rw [hrefused, lookupSubscriber_removeSub, if_pos rfl] at hlookup
      cases hlookup
    refine ⟨hvalid, ?_⟩
    intro hw
    obtain ⟨⟨pattern, r⟩, hr, rfl⟩ := Option.map_eq_some_iff.mp
      (show (h.wcSubs.lookup (wildcardKey sid ch)).map Prod.snd = some sub by
        simpa [lookupSubscriber, hw] using hsome)
    have hmem : wildcardKey sid ch ∈ h.wcSubs := mem_of_lookup_eq_some hr
    have hwc := congrArg (·.wcSubs.lookup (wildcardKey sid ch)) hback
    simp only [readd, removeSub, addSub, hw, hmem, hvalid, if_true, notMem_erase_self,
      if_false, lookup_insert, hr, Option.some.injEq, Prod.mk.injEq, and_true] at hwc
    simp [hr, hwc]
  · intro hback
    simp [readd, addSub_removeSub hsome hback]

theorem lookupSubscriber_readd_ne {sid' : String} (hne : sid' ≠ sid) :
    (h.readd ch sid' sub).lookupSubscriber ch sid = h.lookupSubscriber ch sid := by
  have hkey : wildcardKey sid ch ≠ wildcardKey sid' ch := by
    intro hk
    simp only [wildcardKey, String.append_left_inj] at hk
    exact hne hk.symm
  unfold readd addSub lookupSubscriber
  split_ifs <;> simp [lookup_insert_of_ne _ hkey, lookup_insert_of_ne _ hne.symm]

end Lookup

end Hub

end MessageLoop
