import MessageLoop.Runtime.SubscriptionCalls
import MessageLoop.Session.HubInterest

/-!
A node seen from one channel of one session. The subscription in the hub, what the hub and the
broker count for the channel and the tracked set form a cell; each operation of the node changes
the cell of its own channel only.
-/

namespace MessageLoop.Cells

open Node

/-- One channel of a session; `last` is what the hub would report when it removes the
subscription. -/
structure Cell where
  subscribed : Bool
  ephemeral : Option Bool
  last : Bool
  wants : Nat
  interest : Nat
  tracked : Prop

def cell (n : Node) (c : SessionRef) (ch : String) : Cell where
  subscribed := (n.lookupSubscriber ch c).isSome
  ephemeral := (n.lookupSubscriber ch c).map Subscriber.ephemeral
  last := (n.removeSub ch c).1
  wants := n.hub.wants ch
  interest := n.interest ch
  tracked := ch ∈ n.tracked c

structure Updates (c : SessionRef) (ch : String) (n t : Node) (w : Cell) : Prop where
  enabled : t.clusterEnabled = n.clusterEnabled
  session : t.sessions c = { n.sessions c with subscribedChannels := t.tracked c }
  registry : t.hub.sessions = n.hub.sessions
  patterned : n.hub.Patterned (n.sessionID c) → t.hub.Patterned (n.sessionID c)
  others : ∀ x, x ≠ ch → cell t c x = cell n c x
  here : cell t c ch = w

variable {n t : Node} {c : SessionRef} {ch : String} {sub : Subscriber}

theorem Updates.sessionID {w : Cell} (h : Updates c ch n t w) : t.sessionID c = n.sessionID c := by
  unfold Node.sessionID
  rw [h.session]

theorem Updates.state {w : Cell} (h : Updates c ch n t w) :
    (t.sessions c).state = (n.sessions c).state := by
  rw [h.session]

theorem updates_of_eq (henabled : t.clusterEnabled = n.clusterEnabled)
    (hsessions : t.sessions = n.sessions) (hhub : t.hub = n.hub)
    (hinterest : t.interest = n.interest) : Updates c ch n t (cell n c ch) := by
  have hid : t.sessionID c = n.sessionID c := congrArg (fun f => (f c).session) hsessions
  have hcell : ∀ x, cell t c x = cell n c x := by
    intro x
    simp only [cell, lookupSubscriber, removeSub, tracked, hid, hsessions, hhub,
      hinterest]
  refine ⟨henabled, by simp [tracked, hsessions], by rw [hhub], ?_, fun x _ => hcell x,
    hcell ch⟩
  intro hpat
  rwa [hhub]

theorem updates_refl : Updates c ch n n (cell n c ch) :=
  updates_of_eq rfl rfl rfl rfl

theorem updates_sync {c' : SessionRef} {ok : Bool} (h : n.syncClusterSessionState c' ok = some t) :
    Updates c ch n t (cell n c ch) := by
  unfold syncClusterSessionState at h
  split_ifs at h <;> cases h <;> exact updates_of_eq rfl rfl rfl rfl

theorem updates_adjust {delta : Int} {ok : Bool}
    (h : n.adjustClusterChannelSubscriptions ch delta ok = some t) :
    Updates c ch n t (cell n c ch) := by
  unfold adjustClusterChannelSubscriptions at h
  split_ifs at h <;> cases h <;> exact updates_of_eq rfl rfl rfl rfl

theorem updates_getD {r : Option Node} (h : ∀ t, r = some t → Updates c ch n t (cell n c ch)) :
    Updates c ch n (r.getD n) (cell n c ch) := by
  cases r with
  | none => exact updates_refl
  | some t => exact h t rfl

theorem updates_setInterest {k : Nat} :
    Updates c ch n (n.setInterest ch k) { cell n c ch with interest := k } := by
  refine ⟨rfl, rfl, rfl, fun hpat => hpat, ?_, ?_⟩
  · intro x hx
    simp only [cell, setInterest_interest, Function.update_of_ne hx]
    rfl
  · simp only [cell, setInterest_interest, Function.update_self]
    rfl

theorem updates_forceTrackChannel :
    Updates c ch n (n.forceTrackChannel c ch) { cell n c ch with tracked := True } := by
  refine ⟨rfl, ?_, rfl, fun hpat => hpat, ?_, ?_⟩
  · simp [forceTrackChannel, Session.forceTrackChannel, tracked]
  · intro x hx
    simp only [cell, lookupSubscriber, removeSub, sessionID_forceTrackChannel,
      tracked_forceTrackChannel, Finset.mem_insert, hx, false_or]
    rfl
  · simp only [cell, lookupSubscriber, removeSub, sessionID_forceTrackChannel,
      tracked_forceTrackChannel, Finset.mem_insert_self]
    rfl

theorem updates_untrackChannel :
    Updates c ch n (n.untrackChannel c ch) { cell n c ch with tracked := False } := by
  refine ⟨rfl, ?_, rfl, fun hpat => hpat, ?_, ?_⟩
  · simp [untrackChannel, Session.untrackChannel, tracked]
  · intro x hx
    simp only [cell, lookupSubscriber, removeSub, sessionID_untrackChannel,
      tracked_untrackChannel, Finset.mem_erase, ne_eq, hx, not_false_eq_true, true_and]
    rfl
  · simp only [cell, lookupSubscriber, removeSub, sessionID_untrackChannel,
      tracked_untrackChannel, Finset.mem_erase, ne_eq, not_true_eq_false, false_and]
    rfl

theorem updates_addSub {first : Bool} (hsub : sub.session = c)
    (hnone : n.lookupSubscriber ch c = none) (h : n.addSub ch sub = .ok (first, t)) :
    Updates c ch n t { cell n c ch with
      subscribed := true
      ephemeral := some sub.ephemeral
      last := first
      wants := n.hub.wants ch + first.toNat } := by
  subst hsub
  obtain ⟨hub, hadd, rfl⟩ := addSub_eq_ok h
  have hlookup := fun x => Hub.lookupSubscriber_addSub x hnone hadd
  have hwants := fun x => Hub.wants_addSub x hnone hadd
  refine ⟨rfl, rfl, Hub.sessions_addSub hadd, fun hpat => Hub.patterned_addSub hpat hadd, ?_, ?_⟩
  · intro x hx
    have hlast := Hub.removeSub_fst_addSub hadd hx
    simp only [cell, lookupSubscriber, removeSub, sessionID_setHub,
      setHub_hub, hlookup, hwants, hlast, hx, if_false, false_and, Nat.add_zero]
    rfl
  · have hlast := Hub.removeSub_addSub hnone hadd
    simp only [cell, lookupSubscriber, removeSub, sessionID_setHub,
      setHub_hub, hlookup, hwants, hlast, if_true, true_and, Option.isSome_some,
      Option.map_some]
    cases first <;> rfl

theorem last_le_wants (hpat : n.hub.Patterned (n.sessionID c)) (hsome : (cell n c ch).subscribed) :
    (n.removeSub ch c).1.toNat ≤ n.hub.wants ch := by
  have hwants := Hub.wants_removeSub ch hpat (Option.isSome_iff_ne_none.mp hsome)
  show (n.hub.removeSub ch (n.sessionID c)).1.toNat ≤ n.hub.wants ch
  cases hlast : (n.hub.removeSub ch (n.sessionID c)).1 with
  | false => exact Nat.zero_le _
  | true =>
    rw [if_pos ⟨rfl, hlast⟩] at hwants
    exact Nat.lt_of_lt_of_eq (Nat.lt_add_one_of_le (Nat.zero_le _)) hwants

theorem updates_removeSub (hpat : n.hub.Patterned (n.sessionID c))
    (hsome : (cell n c ch).subscribed) :
    ∃ last, Updates c ch n (n.removeSub ch c).2.2 { cell n c ch with
      subscribed := false
      ephemeral := none
      last := last
      wants := n.hub.wants ch - (n.removeSub ch c).1.toNat } := by
  have hwants := fun x => Hub.wants_removeSub x hpat (Option.isSome_iff_ne_none.mp hsome)
  refine ⟨((n.removeSub ch c).2.2.removeSub ch c).1, rfl, rfl, Hub.sessions_removeSub,
    fun hpat => Hub.patterned_removeSub hpat, ?_, ?_⟩
  · intro x hx
    have hlast : ((n.removeSub ch c).2.2.removeSub x c).1 = (n.removeSub x c).1 :=
      Hub.removeSub_fst_removeSub hx
    have hlookup : (n.removeSub ch c).2.2.lookupSubscriber x c = n.lookupSubscriber x c :=
      Hub.lookupSubscriber_removeSub.trans (if_neg hx)
    have hx' : (n.removeSub ch c).2.2.hub.wants x = n.hub.wants x := by
      have h := hwants x
      rwa [if_neg (fun h => hx h.1), Nat.add_zero] at h
    simp only [cell, hlast, hlookup, hx']
    rfl
  · have hlookup : (n.removeSub ch c).2.2.lookupSubscriber ch c = none :=
      Hub.lookupSubscriber_removeSub.trans (if_pos rfl)
    have hch : (n.removeSub ch c).2.2.hub.wants ch =
        n.hub.wants ch - (n.removeSub ch c).1.toNat := by
      have h := hwants ch
      show (n.hub.removeSub ch (n.sessionID c)).2.2.wants ch =
        n.hub.wants ch - (n.hub.removeSub ch (n.sessionID c)).1.toNat
      cases hlast : (n.hub.removeSub ch (n.sessionID c)).1 with
      | false => simpa [hlast] using h
      | true =>
        simp only [hlast, and_self, if_true] at h
        simp only [Bool.toNat_true]
        omega
    simp only [cell, hlookup, hch, Option.isSome_none, Option.map_none]
    rfl

theorem subscribed_of_removeSub {last removed : Bool} (h : n.removeSub ch c = (last, removed, t)) :
    (cell n c ch).subscribed = removed := by
  have hfound : (n.removeSub ch c).2.1 = (n.lookupSubscriber ch c).isSome := Hub.removeSub_removed
  rw [h] at hfound
  exact hfound.symm

theorem updates_of_removeSub {last : Bool} (hpat : n.hub.Patterned (n.sessionID c))
    (h : n.removeSub ch c = (last, true, t)) :
    last.toNat ≤ n.hub.wants ch ∧ ∃ last', Updates c ch n t { cell n c ch with
      subscribed := false
      ephemeral := none
      last := last'
      wants := n.hub.wants ch - last.toNat } := by
  have hsome := subscribed_of_removeSub h
  have hle := last_le_wants hpat hsome
  obtain ⟨last', hupdates⟩ := updates_removeSub hpat hsome
  rw [h] at hupdates hle
  exact ⟨hle, last', hupdates⟩

end MessageLoop.Cells
