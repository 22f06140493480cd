import MessageLoop.Lib.Locks
import MessageLoop.Session.DeliveredOffset
import MessageLoop.Cluster.Chain

/-!
When the snapshots of a session keep a channel across resumes.

Two arguments meet here. The lease version keeps everybody but the present owner from storing a
snapshot. The present owner tracks the channel under its flag from the acknowledgement on, and a
resume from a snapshot that lists it as an ordinary channel without offset leaves that so.
-/

namespace MessageLoop.Chain

open Topics List Option Function Node
open Resume (OwnerCall holdsLock)

variable {n t : Node} {c : SessionRef} {sid ch : String} {ok : Bool}
variable {stored : Option SessionSnapshot} {b : SubCall} {calls : List OwnerCall}
variable {subscribed : String → Option (Bool × Nat)}

section Property

def Lists (snapshot : SessionSnapshot) (ch : String) (ephemeral : Bool) : Prop :=
  ∀ e, (ch, e) ∈ snapshot.subscriptions ↔ e = ephemeral

/-- The snapshot keeps a subscription: the channel, its flag, and an offset not below the one the
session was resumed with, so that the next resume recovers the channel if this one did. -/
structure Keeps (snapshot : SessionSnapshot) (ch : String) (r : Bool × Nat) : Prop where
  listed : Lists snapshot ch r.1
  offset : r.2 ≤ snapshot.channelOffsets ch
  recovered : 0 < r.2 → (recoveryCursor snapshot ch).isSome

def Kept (ch : String) (s : State sid) : Prop :=
  ∀ r, s.subscribed ch = some r →
    ∃ stored, s.directory.snapshots sid = some stored ∧ Keeps stored ch r

def SameEntry (left right : SessionSnapshot) (ch : String) : Prop :=
  ∀ e : Bool, (ch, e) ∈ left.subscriptions ↔ (ch, e) ∈ right.subscriptions

instance (left right : SessionSnapshot) (ch : String) : Decidable (SameEntry left right ch) :=
  inferInstanceAs (Decidable (∀ _ : Bool, _))

def Plain (snapshot : SessionSnapshot) (ch : String) : Prop :=
  (ch, true) ∉ snapshot.subscriptions ∧ snapshot.channelOffsets ch = 0

instance (snapshot : SessionSnapshot) (ch : String) : Decidable (Plain snapshot ch) :=
  inferInstanceAs (Decidable (_ ∧ _))

/-- If the owner is about to store this snapshot, it lists the channel as the owner has it now. -/
def UpToDate (ch : String) (s : State sid) (y : Sync) : Prop :=
  y.stores → y.desired.leaseVersion = s.version →
    SameEntry y.snapshot (s.node.clusterSessionSnapshot s.session) ch

instance (ch : String) (s : State sid) (y : Sync) : Decidable (UpToDate ch s y) :=
  inferInstanceAs (Decidable (_ → _))

def Resuming.read : Resuming sid → Option SessionSnapshot
  | .claim _ _ snapshot => some snapshot
  | _ => none

/-- A restore of the channel does not fail, and no `AddSubscription` comes before it. -/
def Restores (ch : String) (s : State sid) (c : SubCall) (ok : Bool) : Prop :=
  match c.op with
  | .restore _ => ok = true
  | .add _ => c.pc = .start → ch ∈ s.node.tracked s.session →
      s.node.lookupSubscriber ch s.session ≠ none
  | .remove => True

instance (ch : String) (s : State sid) (c : SubCall) (ok : Bool) :
    Decidable (Restores ch s c ok) := by
  unfold Restores
  split <;> infer_instance

/-- What keeps the channel. Resumes start from snapshots that list it, if at all, as an ordinary
channel without offset, and that are still the stored ones; its restores succeed before anybody
subscribes it again; the owner does not store a snapshot in which it is outdated. -/
def Undisturbed (ch : String) (s : State sid) : Action sid → Prop
  | .call k ok => ∀ c ∈ s.calls[k]?,
      (∀ y ∈ c.sync, UpToDate ch s y) ∧ (c.call.channel = ch → Restores ch s c.call ok)
  | .sync k _ => ∀ y ∈ s.syncs[k]?, UpToDate ch s y
  | .addClient _ => ∀ y ∈ s.connecting.sync, UpToDate ch s y
  | .claim => ∀ snapshot ∈ s.resuming.read,
      Plain snapshot ch ∧ ∀ stored ∈ s.directory.snapshots sid, SameEntry snapshot stored ch
  | _ => True

instance (ch : String) (s : State sid) (a : Action sid) : Decidable (Undisturbed ch s a) := by
  unfold Undisturbed
  split <;> infer_instance

end Property

section Channel
variable {sub : Subscriber} {first e : Bool}

def flagOf (n : Node) (c : SessionRef) (ch : String) : Bool :=
  ((n.lookupSubscriber ch c).map Subscriber.ephemeral).getD false

theorem flagOf_congr (h : t.lookupSubscriber ch c = n.lookupSubscriber ch c) :
    flagOf t c ch = flagOf n c ch := by
  rw [flagOf, h, flagOf]

structure Tracked (n : Node) (c : SessionRef) (ch : String) (ephemeral : Bool) : Prop where
  valid : validTopic ch
  tracked : ch ∈ n.tracked c
  flag : flagOf n c ch = ephemeral

def inSaga : Pc → Bool
  | .start | .commit _ | .rollback _ _ | .returned _ => true
  | _ => false

def inRestore : Pc → Bool
  | .restoreCheck | .start | .restoreAdd | .restoreSubscribe | .restoreTrack | .restorePresence
  | .restoreAdjust | .returned _ => true
  | _ => false

def InPlace (a : SubCall) : Prop :=
  match a.op with
  | .restore e =>
    e = false ∧ (inRestore a.pc ∨ ¬ validTopic a.channel ∧ a.pc = .restoreUntrack)
  | _ => inSaga a.pc

/-- What a call that is inside the lock of the channel has done to it. -/
def Holding (n : Node) (stored : Option SessionSnapshot) (c : SessionRef) (ch : String) :
    CallOp → Pc → Prop
  | .add _, .commit .hub => n.lookupSubscriber ch c = none
  | .add e, .commit .client => validTopic ch ∧ flagOf n c ch = e
  | .add e, .commit .broker => Tracked n c ch e
  | .add e, .commit .session => Tracked n c ch e
  | .add e, .commit .channel => Tracked n c ch e ∧ ∃ snapshot ∈ stored, Lists snapshot ch e
  | .restore _, .restoreAdd => n.lookupSubscriber ch c = none
  | _, _ => True

variable {ephemeral : Bool}
variable {a : SubCall}

theorem Tracked.lists (h : Tracked n c ch ephemeral) :
    Lists (n.clusterSessionSnapshot c) ch ephemeral := by
  intro e
  simp only [clusterSessionSnapshot, Finset.mem_image, Prod.mk.injEq]
  rw [← h.flag]
  constructor
  · rintro ⟨x, -, rfl, rfl⟩
    rfl
  · rintro rfl
    exact ⟨ch, h.tracked, rfl, rfl⟩

theorem Lists.of_sameEntry {left right : SessionSnapshot} (h : Lists right ch ephemeral)
    (hsame : SameEntry left right ch) : Lists left ch ephemeral :=
  fun e => (hsame e).trans (h e)

theorem validTopic_of_addSub (hsub : sub.session = c) (hnone : n.lookupSubscriber ch c = none)
    (h : n.addSub ch sub = .ok (first, t)) :
    validTopic ch := by
  subst hsub
  by_contra hinvalid
  simp [addSub, Hub.addSub_of_invalid hnone hinvalid, Except.map] at h

theorem lookup_addSub (hsub : sub.session = c) (hnone : n.lookupSubscriber ch c = none)
    (h : n.addSub ch sub = .ok (first, t)) :
    t.lookupSubscriber ch c = some sub := by
  subst hsub
  obtain ⟨hub, hadd, rfl⟩ := addSub_eq_ok h
  exact (Hub.lookupSubscriber_addSub ch hnone hadd).trans (if_pos rfl)

theorem tracked_addSub (h : n.addSub ch sub = .ok (first, t)) : t.tracked c = n.tracked c := by
  obtain ⟨hub, -, rfl⟩ := addSub_eq_ok h
  rfl

theorem Tracked.of_eq (h : Tracked n c ch ephemeral)
    (hlookup : t.lookupSubscriber ch c = n.lookupSubscriber ch c)
    (htracked : ch ∈ t.tracked c) : Tracked t c ch ephemeral := by
  exact ⟨h.valid, htracked, (flagOf_congr hlookup).trans h.flag⟩

theorem tracked_adjust {delta : Int} (h : n.adjustClusterChannelSubscriptions ch delta ok = some t)
    (htracked : Tracked n c ch ephemeral) : Tracked t c ch ephemeral := by
  unfold adjustClusterChannelSubscriptions at h
  split_ifs at h <;> cases h <;> exact htracked.of_eq rfl htracked.tracked

structure Advances (n t : Node) (stored : Option SessionSnapshot) (a b : SubCall) : Prop where
  inPlace : InPlace b
  holding : Holding t stored a.session a.channel b.op b.pc
  steady : ∀ e, Tracked n a.session a.channel e → (a.holds → ∃ e, a.op = .restore e) →
    a.op ≠ .remove → Tracked t a.session a.channel e ∧ (b.holds → ∃ e, b.op = .restore e)
  acknowledged : ∀ e, a.op = .add e → a.pc = .commit .channel → b.pc = .returned .ok →
    Tracked t a.session a.channel e ∧ ∃ snapshot ∈ stored, Lists snapshot a.channel e

def finishing : Pc → Bool
  | .commit .channel => true
  | _ => false

theorem acknowledged_of_unfinished {P : Bool → Prop} (h : finishing a.pc = false) :
    ∀ e, a.op = .add e → a.pc = .commit .channel → b.pc = .returned .ok → P e := by
  intro e _ hpc
  rw [hpc] at h
  cases h

theorem Advances.quiet (hplace : InPlace b)
    (hholding : Holding t stored a.session a.channel b.op b.pc)
    (hsteady : ∀ e, Tracked n a.session a.channel e → Tracked t a.session a.channel e)
    (hfree : b.holds = false ∨ ∃ e, b.op = .restore e) (hpc : finishing a.pc = false) :
    Advances n t stored a b := by
  refine ⟨hplace, hholding, ?_, acknowledged_of_unfinished hpc⟩
  intro e htracked _ _
  refine ⟨hsteady e htracked, ?_⟩
  intro hholds
  rcases hfree with hfree | hrestore
  · rw [hfree] at hholds
    cases hholds
  · exact hrestore

theorem steady_of_add {P : Prop} (hop : a.op = .add e) (hholds : a.holds)
    (h : a.holds → ∃ e, a.op = .restore e) : P := by
  obtain ⟨e', he'⟩ := h hholds
  rw [hop] at he'
  cases he'

theorem Advances.adding (hop : a.op = .add e) (hholds : a.holds) (hplace : InPlace b)
    (hholding : Holding t stored a.session a.channel b.op b.pc) (hpc : finishing a.pc = false) :
    Advances n t stored a b :=
  ⟨hplace, hholding, fun _ _ hrestore => steady_of_add hop hholds hrestore,
    acknowledged_of_unfinished hpc⟩

theorem advances_add (hop : a.op = .add e) (hsub : a.subscriber.session = a.session)
    (hephemeral : a.subscriber.ephemeral = e) (hplace : InPlace a)
    (hholding : Holding n stored a.session a.channel a.op a.pc) (hsync : a.atSync = false)
    (hfound : a.pc = .start → a.channel ∈ n.tracked a.session →
      n.lookupSubscriber a.channel a.session ≠ none)
    (h : SubCall.Move n a ok t b) : Advances n t stored a b := by
  obtain ⟨op, c, ch, sub, flag, pc⟩ := a
  obtain rfl : op = .add e := hop
  obtain rfl : sub.session = c := hsub
  cases h with
  | addFound _ => exact .quiet rfl trivial (fun _ => id) (.inl rfl) rfl
  | addStart hlookup =>
    refine ⟨rfl, hlookup, ?_, acknowledged_of_unfinished rfl⟩
    intro e htracked
    exact absurd hlookup (hfound rfl htracked.tracked)
  | addCommit _ hcommit =>
    cases hcommit with
    | hub hadd =>
      refine .adding rfl rfl rfl ⟨validTopic_of_addSub rfl hholding hadd, ?_⟩ rfl
      simpa [flagOf, lookup_addSub rfl hholding hadd] using hephemeral
    | client hopen =>
      obtain ⟨hvalid, hflag⟩ := hholding
      refine .adding rfl rfl rfl ⟨hvalid, by simp, ?_⟩ rfl
      rw [← hflag, flagOf, lookupSubscriber, sessionID_forceTrackChannel]
      rfl
    | brokerKept => exact .adding rfl rfl rfl hholding rfl
    | broker => exact .adding rfl rfl rfl (Tracked.of_eq hholding rfl hholding.tracked) rfl
    | session _ => cases hsync
    | channel hadjust =>
      obtain ⟨htracked, hstored⟩ := hholding
      refine ⟨rfl, trivial, fun _ _ hrestore => steady_of_add rfl rfl hrestore, ?_⟩
      intro e' he' _ _
      cases he'
      exact ⟨tracked_adjust hadjust htracked, hstored⟩
  | @commitFailed _ _ _ _ _ _ k _ herr =>
    refine ⟨?_, ?_, fun _ _ hrestore => steady_of_add rfl rfl hrestore, ?_⟩
    · cases k <;> rfl
    · cases k <;> trivial
    · intro e' _ _ hreturned
      cases k <;> cases hreturned
  | @rollback _ _ _ _ _ _ failed k =>
    refine .adding rfl rfl ?_ ?_ rfl
    · cases k <;> rfl
    · cases k <;> trivial
  | _ => cases hplace

theorem advances_remove (hop : a.op = .remove) (hplace : InPlace a) (h : SubCall.Move n a ok t b) :
    Advances n t stored a b := by
  suffices hnext : InPlace b ∧ Holding t stored a.session a.channel b.op b.pc by
    refine ⟨hnext.1, hnext.2, fun _ _ _ hne => absurd hop hne, ?_⟩
    intro e hadd
    rw [hop] at hadd
    cases hadd
  obtain ⟨op, c, ch, sub, flag, pc⟩ := a
  obtain rfl : op = .remove := hop
  cases h with
  | removeMissing _ | removeStart _ => exact ⟨rfl, trivial⟩
  | @removeCommit _ _ _ _ _ _ k _ _ | @commitFailed _ _ _ _ _ _ k _ _
  | @rollback _ _ _ _ _ _ _ k => cases k <;> exact ⟨rfl, trivial⟩
  | addCommit hne _ => exact absurd rfl hne
  | _ => cases hplace

theorem advances_restore (hop : a.op = .restore e) (hsub : a.subscriber.session = a.session)
    (hephemeral : a.subscriber.ephemeral = e) (hplace : InPlace a)
    (hholding : Holding n stored a.session a.channel a.op a.pc) (hok : ok = true)
    (h : SubCall.Move n a ok t b) : Advances n t stored a b := by
  subst hok
  obtain ⟨op, c, ch, sub, flag, pc⟩ := a
  obtain rfl : op = .restore e := hop
  obtain rfl : sub.session = c := hsub
  obtain ⟨rfl, hpc⟩ := hplace
  have hnext : ∀ {m : Node} {flag' : Bool} {pc' : Pc}, finishing pc = false → inRestore pc' →
      Holding m stored sub.session ch (.restore false) pc' →
      (∀ e, Tracked n sub.session ch e → Tracked m sub.session ch e) →
      Advances n m stored ⟨.restore false, sub.session, ch, sub, flag, pc⟩
        ⟨.restore false, sub.session, ch, sub, flag', pc'⟩ := by
    intro m flag' pc' hunfinished hin hheld hsteady
    exact .quiet ⟨rfl, .inl hin⟩ hheld hsteady (.inr ⟨false, rfl⟩) hunfinished
  cases h with
  | restoreStart hlookup => exact hnext rfl rfl hlookup (fun _ => id)
  | restoreAdd hadd =>
    have hnone : n.lookupSubscriber ch sub.session = none := hholding
    refine hnext rfl rfl trivial ?_
    -- The channel was listed as not ephemeral without a record, and is so with it.
    intro e htracked
    refine ⟨htracked.valid, by rw [tracked_addSub hadd]; exact htracked.tracked, ?_⟩
    rw [← htracked.flag, flagOf, flagOf, lookup_addSub rfl hnone hadd, hnone]
    exact hephemeral
  | restoreAddFailed hadd =>
    have hinvalid : ¬ validTopic ch := by
      intro hvalid
      obtain ⟨hub, hub'⟩ := Hub.addSub_of_valid sub hholding hvalid
      simp [addSub, hub', Except.map] at hadd
    exact ⟨⟨rfl, .inr ⟨hinvalid, rfl⟩⟩, trivial,
      fun _ htracked => absurd htracked.valid hinvalid, acknowledged_of_unfinished rfl⟩
  | restoreSubscribe =>
    exact hnext rfl rfl trivial (fun _ htracked => htracked.of_eq rfl htracked.tracked)
  | restoreTrack =>
    refine hnext rfl rfl trivial (fun _ htracked => htracked.of_eq ?_ (by simp))
    rw [lookupSubscriber, sessionID_forceTrackChannel]
    rfl
  | restoreCheck | restoreFound _ | restoreSubscribeKept | restorePresence =>
    exact hnext rfl rfl trivial (fun _ => id)
  | restoreAdjust =>
    refine hnext rfl rfl trivial ?_
    intro e htracked
    cases hadjust : n.adjustClusterChannelSubscriptions ch 1 true with
    | none => exact htracked
    | some m => exact tracked_adjust hadjust htracked
  | restoreUntrack =>
    rcases hpc with hin | ⟨hinvalid, -⟩
    · cases hin
    · exact ⟨⟨rfl, .inl rfl⟩, trivial, fun _ htracked => absurd htracked.valid hinvalid,
        acknowledged_of_unfinished rfl⟩
  | _ => rcases hpc with hin | ⟨-, hin⟩ <;> cases hin

end Channel

section Tending

structure Sound (c : SessionRef) (a : SubCall) : Prop where
  session : a.session = c
  subscriber : a.subscriber.session = c
  ephemeral : ∀ e, a.op = .add e ∨ a.op = .restore e → a.subscriber.ephemeral = e

/-- What the owner keeps of a channel: between the calls that work on it under its lock, an
acknowledged subscription is tracked and stored under its flag. -/
structure Tended (ch : String) (c : SessionRef) (n : Node) (calls : List OwnerCall)
    (stored : Option SessionSnapshot) (subscribed : String → Option (Bool × Nat)) : Prop where
  enabled : n.clusterEnabled
  own : ∀ x r, n.lookupSubscriber x c = some r → r.session = c
  sound : ∀ a ∈ calls, Sound c a.call
  exclusive : Locks.Exclusive holdsLock calls
  inPlace : ∀ a ∈ calls, a.call.channel = ch → InPlace a.call
  holding : ∀ a ∈ calls, a.call.channel = ch → Holding n stored c ch a.call.op a.call.pc
  kept : ∀ r, subscribed ch = some r →
    Tracked n c ch r.1 ∧ r.2 = 0 ∧ (∃ snapshot ∈ stored, Lists snapshot ch r.1) ∧
      ∀ a ∈ calls, holdsLock a ch → ∃ e, a.call.op = .restore e

variable {k : Nat} {a d : OwnerCall}

theorem holding_of_free (h : b.holds = false) : Holding n stored c ch b.op b.pc := by
  obtain ⟨op, c', ch', sub, flag, pc⟩ := b
  cases op <;> cases pc <;> trivial

theorem Tracked.imp {e : Bool} (h : Tracked n c ch e) (hflag : flagOf t c ch = flagOf n c ch)
    (htracked : validTopic ch → ch ∈ n.tracked c → ch ∈ t.tracked c) : Tracked t c ch e :=
  ⟨h.valid, htracked h.valid h.tracked, hflag.trans h.flag⟩

theorem Holding.imp {stored' : Option SessionSnapshot} {op : CallOp} {pc : Pc}
    (h : Holding n stored c ch op pc)
    (hnone : n.lookupSubscriber ch c = none → t.lookupSubscriber ch c = none)
    (hflag : flagOf t c ch = flagOf n c ch)
    (htracked : validTopic ch → ch ∈ n.tracked c → ch ∈ t.tracked c)
    (hstored : ∀ e, Tracked n c ch e → (∃ snapshot ∈ stored, Lists snapshot ch e) →
      ∃ snapshot ∈ stored', Lists snapshot ch e) : Holding t stored' c ch op pc := by
  cases op with
  | add e =>
    cases pc with
    | commit k =>
      cases k with
      | hub => exact hnone h
      | client => exact ⟨h.1, hflag.trans h.2⟩
      | broker | session => exact Tracked.imp h hflag htracked
      | channel => exact ⟨h.1.imp hflag htracked, hstored e h.1 h.2⟩
    | _ => trivial
  | remove => trivial
  | restore e =>
    cases pc with
    | restoreAdd => exact hnone h
    | _ => trivial

theorem acknowledge_cases (subscribed : String → Option (Bool × Nat)) (before after : SubCall) :
    (∃ e, before.op = .add e ∧ before.pc = .commit .channel ∧ after.pc = .returned .ok ∧
        acknowledge subscribed before after =
          Function.update subscribed before.channel (some (e, 0))) ∨
      (before.op = .remove ∧ before.pc = .start ∧
        acknowledge subscribed before after = Function.update subscribed before.channel none) ∨
      (¬ (before.op = .remove ∧ before.pc = .start) ∧
        acknowledge subscribed before after = subscribed) := by
  unfold acknowledge
  split
  · rename_i e hop hpc hafter
    exact .inl ⟨e, hop, hpc, hafter, rfl⟩
  · rename_i hop hpc
    exact .inr (.inl ⟨hop, hpc, rfl⟩)
  · rename_i hremove _
    exact .inr (.inr ⟨fun h => hremove h.1 h.2, rfl⟩)

theorem acknowledge_of_ne {x : String} (hx : x ≠ b.channel) (after : SubCall) :
    acknowledge subscribed b after x = subscribed x := by
  rcases acknowledge_cases subscribed b after with ⟨e, -, -, -, h⟩ | ⟨-, -, h⟩ | ⟨-, h⟩ <;> rw [h]
  · exact update_of_ne hx _ _
  · exact update_of_ne hx _ _

theorem Sound.step (h : Sound c a.call) (heffect : a.call.Effect n t b)
    (hown : ∀ x r, n.lookupSubscriber x c = some r → r.session = c) : Sound c b := by
  refine ⟨heffect.session.trans h.session, ?_, ?_⟩
  · rcases heffect.subscriber with hsame | ⟨-, hfound⟩
    · rw [hsame]
      exact h.subscriber
    · rw [h.session] at hfound
      exact hown _ _ hfound
  · intro e hop
    rw [heffect.op] at hop
    rcases heffect.subscriber with hsame | ⟨hremove, -⟩
    · rw [hsame]
      exact h.ephemeral e hop
    · rw [hremove] at hop
      rcases hop with hop | hop <;> cases hop

theorem unlocked_step {b' : SubCall} (hplace : InPlace b) (hholds : b.holds = false)
    (hacquires : b.acquires = false) (hok : ∀ e, b.op = .restore e → ok = true)
    (h : b.step n ok = some (t, b')) :
    t.lookupSubscriber b.channel b.session = n.lookupSubscriber b.channel b.session ∧
      (validTopic b.channel → t.tracked b.session = n.tracked b.session) := by
  obtain ⟨op, c', ch', sub, flag, pc⟩ := b
  cases op with
  | add _ | remove =>
    cases pc with
    | start => cases hacquires
    | commit _ | rollback _ _ => cases hholds
    | returned _ => cases h
    | _ => cases hplace
  | restore e =>
    obtain ⟨rfl, hpc⟩ := hplace
    cases pc with
    | restoreCheck | restorePresence =>
      cases h
      exact ⟨rfl, fun _ => rfl⟩
    | restoreAdjust =>
      cases h
      unfold adjustClusterChannelSubscriptions
      split_ifs <;> exact ⟨rfl, fun _ => rfl⟩
    | restoreUntrack =>
      cases h
      rcases hpc with hin | ⟨hinvalid, -⟩
      · cases hin
      · refine ⟨?_, fun hvalid => absurd hvalid hinvalid⟩
        simp only [lookupSubscriber, sessionID_untrackChannel]
        rfl
    | start | undoRemove => cases hacquires
    | returned result => cases h
    | _ => cases hholds

section
variable (h : Tended ch c n calls stored subscribed)
include h

theorem Tended.spawn (hsound : Sound c b) (hidle : b.holds = false)
    (hplace : b.channel = ch → InPlace b) :
    Tended ch c n (calls ++ [⟨b, none⟩]) stored subscribed := by
  have hfree : ∀ lock, ¬ holdsLock ⟨b, none⟩ lock := by
    rintro lock ⟨hholds, -⟩
    rw [hidle] at hholds
    cases hholds
  refine ⟨h.enabled, h.own, forall_mem_snoc h.sound hsound, ?_, forall_mem_snoc h.inPlace hplace,
    forall_mem_snoc h.holding (fun _ => holding_of_free hidle), ?_⟩
  · exact h.exclusive.append (forall_mem_singleton.mpr hfree)
  · intro r hr
    obtain ⟨htracked, hzero, hlists, hheld⟩ := h.kept r hr
    exact ⟨htracked, hzero, hlists, forall_mem_snoc hheld (fun hlock => absurd hlock (hfree ch))⟩

theorem Tended.store {snapshot : SessionSnapshot}
    (hfresh : SameEntry snapshot (n.clusterSessionSnapshot c) ch) :
    Tended ch c n calls (some snapshot) subscribed := by
  have hlists : ∀ e, Tracked n c ch e → ∃ S ∈ some snapshot, Lists S ch e :=
    fun e htracked => ⟨snapshot, rfl, htracked.lists.of_sameEntry hfresh⟩
  refine { h with holding := ?_, kept := ?_ }
  · intro a ha hch
    exact (h.holding a ha hch).imp id rfl (fun _ => id) (fun e htracked _ => hlists e htracked)
  · intro r hr
    obtain ⟨htracked, hzero, -, hheld⟩ := h.kept r hr
    exact ⟨htracked, hzero, hlists r.1 htracked, hheld⟩

theorem Tended.setNode (henabled : t.clusterEnabled = n.clusterEnabled)
    (hown : ∀ x r, t.lookupSubscriber x c = some r → r.session = c)
    (hnone : n.lookupSubscriber ch c = none → t.lookupSubscriber ch c = none)
    (hflag : flagOf t c ch = flagOf n c ch) (htracked : t.tracked c = n.tracked c) :
    Tended ch c t calls stored subscribed := by
  refine { h with enabled := henabled ▸ h.enabled, own := hown, holding := ?_, kept := ?_ }
  · intro a ha hch
    exact (h.holding a ha hch).imp hnone hflag (fun _ => htracked ▸ id) (fun _ _ => id)
  · intro r hr
    obtain ⟨hold, hzero, hlists, hheld⟩ := h.kept r hr
    exact ⟨hold.imp hflag (fun _ => htracked ▸ id), hzero, hlists, hheld⟩

variable (hk : calls[k]? = some a)
include hk

theorem Tended.setCall (hsound : Sound c d.call)
    (hchannel : d.call.channel = a.call.channel) (hop : d.call.op = a.call.op)
    (hlocked : d.call.holds → a.call.holds) (hplace : a.call.channel = ch → InPlace d.call)
    (hholding : a.call.channel = ch → Holding n stored c ch d.call.op d.call.pc) :
    Tended ch c n (calls.set k d) stored subscribed := by
  have hlock : ∀ lock, holdsLock d lock → holdsLock a lock := by
    rintro lock ⟨hholds, hch⟩
    exact ⟨hlocked hholds, hchannel ▸ hch⟩
  refine ⟨h.enabled, h.own, forall_mem_set h.sound hsound, ?_,
    forall_mem_set h.inPlace (hchannel ▸ hplace), forall_mem_set h.holding (hchannel ▸ hholding), ?_⟩
  · exact h.exclusive.set hk (fun lock hd => .inl (hlock lock hd))
  · intro r hr
    obtain ⟨htracked, hzero, hlists, hheld⟩ := h.kept r hr
    refine ⟨htracked, hzero, hlists, forall_mem_set hheld ?_⟩
    intro hd
    rw [hop]
    exact hheld a (mem_of_getElem? hk) (hlock ch hd)

theorem Tended.synced (hat : a.call.atSync)
    (hstored : ok = true → ∀ e, Tracked n c ch e → ∃ snapshot ∈ stored, Lists snapshot ch e) :
    Tended ch c n (calls.set k ⟨a.call.synced ok, none⟩) stored subscribed := by
  have hsound := h.sound a (mem_of_getElem? hk)
  have hplace := h.inPlace a (mem_of_getElem? hk)
  have hholding := h.holding a (mem_of_getElem? hk)
  obtain ⟨⟨op, c', ch', sub, flag, pc⟩, sync⟩ := a
  have hgoto : ∀ (pc' : Pc), inSaga pc' →
      (ch' = ch → Holding n stored c ch op pc') → (SubCall.mk op c' ch' sub flag pc).holds →
      Tended ch c n (calls.set k ⟨⟨op, c', ch', sub, flag, pc'⟩, none⟩) stored subscribed := by
    intro pc' hsaga hheld hlock
    refine h.setCall hk { hsound with } rfl rfl (fun _ => hlock) ?_ hheld
    intro hch
    have hplace := hplace hch
    cases op with
    | add _ | remove => exact hsaga
    | restore e =>
      obtain ⟨-, hin | ⟨-, hin⟩⟩ := hplace
      · cases pc with
        | commit _ | rollback _ _ => cases hin
        | _ => cases hat
      · obtain rfl : pc = .restoreUntrack := hin
        cases hat
  cases pc with
  | commit j =>
    cases j with
    | session =>
      cases ok with
      | true =>
        refine hgoto (.commit .channel) rfl ?_ rfl
        intro hch
        cases op with
        | add e => exact ⟨hholding hch, hstored rfl e (hholding hch)⟩
        | _ => trivial
      | false => exact hgoto (.rollback .session .broker) rfl (fun _ => by cases op <;> trivial) rfl
    | _ => cases hat
  | rollback failed j =>
    cases j with
    | session => exact hgoto (.rollback failed .broker) rfl (fun _ => by cases op <;> trivial) rfl
    | _ => cases hat
  | _ => cases hat

section
variable (heffect : a.call.Effect n t b) (hsound : Sound c b)
variable (hexclusive : Locks.Exclusive holdsLock (calls.set k ⟨b, none⟩))
variable (hown : ∀ x r, t.lookupSubscriber x c = some r → r.session = c)
include heffect hsound hexclusive hown

theorem Tended.actElsewhere (hne : a.call.channel ≠ ch) :
    Tended ch c t (calls.set k ⟨b, none⟩) stored (acknowledge subscribed a.call b) := by
  obtain rfl : a.call.session = c := (h.sound a (mem_of_getElem? hk)).session
  have htouches := heffect.touches
  have hlookup := htouches.lookup_of_ne hne.symm
  have htracked := htouches.tracked ch hne.symm
  have hflag := flagOf_congr hlookup
  have hout : b.channel ≠ ch := heffect.channel ▸ hne
  refine ⟨htouches.enabled ▸ h.enabled, hown, forall_mem_set h.sound hsound, hexclusive,
    forall_mem_set h.inPlace (fun hch => absurd hch hout),
    forall_mem_set ?_ (fun hch => absurd hch hout), ?_⟩
  · intro e he hch
    exact (h.holding e he hch).imp (hlookup ▸ id) hflag (fun _ => htracked.mpr) (fun _ _ => id)
  · intro r hr
    rw [acknowledge_of_ne hne.symm] at hr
    obtain ⟨hold, hzero, hlists, hheld⟩ := h.kept r hr
    exact ⟨hold.imp hflag (fun _ => htracked.mpr), hzero, hlists,
      forall_mem_set hheld (fun hlock => absurd hlock.2 hout)⟩

theorem Tended.actHere (hch : a.call.channel = ch)
    (hothers : ∀ (j : Nat) (d : OwnerCall), j ≠ k → calls[j]? = some d → d.call.channel = ch →
      Holding t stored c ch d.call.op d.call.pc) (hreturned : a.call.returned = false)
    (hadvances : Advances n t stored a.call b) :
    Tended ch c t (calls.set k ⟨b, none⟩) stored (acknowledge subscribed a.call b) := by
  have ha := mem_of_getElem? hk
  subst hch
  obtain rfl : a.call.session = c := (h.sound a ha).session
  refine ⟨heffect.touches.enabled ▸ h.enabled, hown, forall_mem_set h.sound hsound, hexclusive,
    forall_mem_set h.inPlace (fun _ => hadvances.inPlace),
    Locks.forall_mem_set_of_ne (fun _ => hadvances.holding) hothers, ?_⟩
  intro r hr
  rcases acknowledge_cases subscribed a.call b with ⟨e, hop, hpc, hafter, hack⟩ | ⟨-, -, hack⟩ |
    ⟨hremove, hack⟩
  · rw [hack, update_self] at hr
    cases hr
    obtain ⟨htracked, hlists⟩ := hadvances.acknowledged e hop hpc hafter
    refine ⟨htracked, rfl, hlists, Locks.forall_mem_set_of_ne ?_ ?_⟩
    · rintro ⟨hholds, -⟩
      simp [SubCall.holds, hafter] at hholds
    · intro j d hne hj hlock
      have hheld : holdsLock a a.call.channel := ⟨by simp [SubCall.holds, hpc], rfl⟩
      exact absurd (h.exclusive j k d a _ hj hk hlock hheld) hne
  · rw [hack, update_self] at hr
    cases hr
  · rw [hack] at hr
    obtain ⟨hold, hzero, hlists, hheld⟩ := h.kept r hr
    have hrestore : a.call.holds → ∃ e, a.call.op = .restore e := fun hholds =>
      hheld a ha ⟨hholds, rfl⟩
    have hop : a.call.op ≠ .remove := by
      intro hop
      have hplace := h.inPlace a ha rfl
      obtain ⟨⟨op, c', ch', sub, flag, pc⟩, sync⟩ := a
      obtain rfl : op = .remove := hop
      cases pc with
      | start => exact hremove ⟨rfl, rfl⟩
      | commit _ | rollback _ _ =>
        obtain ⟨e, he⟩ := hrestore rfl
        cases he
      | returned _ => cases hreturned
      | _ => cases hplace
    obtain ⟨htracked, hheld'⟩ := hadvances.steady r.1 hold hrestore hop
    exact ⟨htracked, hzero, hlists, forall_mem_set hheld (fun hlock => hheld' hlock.1)⟩

end

theorem Tended.act (hsync : ¬ (a.call.atSync ∧ n.clusterEnabled))
    (hblocked : ¬ Calls.blocked ⟨n, calls.map OwnerCall.call⟩ a.call)
    (hadd : ∀ e, a.call.channel = ch → a.call.op = .add e → a.call.pc = .start →
      ch ∈ n.tracked c → n.lookupSubscriber ch c ≠ none)
    (hrestore : ∀ e, a.call.channel = ch → a.call.op = .restore e → ok = true)
    (hstep : a.call.step n ok = some (t, b)) :
    Tended ch c t (calls.set k ⟨b, none⟩) stored (acknowledge subscribed a.call b) := by
  have ha := mem_of_getElem? hk
  have hsound := h.sound a ha
  obtain rfl : a.call.session = c := hsound.session
  have heffect := SubCall.step_effect hsound.subscriber hstep
  have hfreed : a.call.acquires → ∀ d ∈ calls, ¬ holdsLock d a.call.channel := by
    intro hacquires d hd hlock
    exact hblocked ⟨hacquires, d.call, mem_map_of_mem hd, hlock⟩
  have hexclusive : Locks.Exclusive holdsLock (calls.set k ⟨b, none⟩) := by
    apply h.exclusive.set hk
    rintro lock ⟨hholds, hlock⟩
    rw [show b.channel = a.call.channel from heffect.channel] at hlock
    subst hlock
    rcases SubCall.holds_of_step hstep hholds with hheld | hacquires
    · exact .inl ⟨hheld, rfl⟩
    · exact .inr (hfreed hacquires)
  have hown : ∀ x r, t.lookupSubscriber x a.call.session = some r → r.session = a.call.session := by
    intro x r hr
    rcases heffect.touches.lookup_or hr with hold | rfl
    · exact h.own x r hold
    · exact hsound.subscriber
  have hnew := hsound.step heffect h.own
  by_cases hch : a.call.channel = ch
  · subst hch
    have hplace := h.inPlace a ha rfl
    have hholding := h.holding a ha rfl
    have hout : a.call.atSync = false := by
      by_contra hat
      exact hsync ⟨by simpa using hat, h.enabled⟩
    have hreturned : a.call.returned = false := by
      cases hpc : a.call.pc with
      | returned result => simp [SubCall.step, hpc] at hstep
      | _ => simp [SubCall.returned, hpc]
    have hothers : ∀ (j : Nat) (d : OwnerCall), j ≠ k → calls[j]? = some d →
        d.call.channel = a.call.channel →
        Holding t stored a.call.session a.call.channel d.call.op d.call.pc := by
      intro j d hne hj hd
      by_cases hlocked : a.call.holds ∨ a.call.acquires
      · apply holding_of_free
        by_contra hholds
        have hlock : holdsLock d a.call.channel := ⟨by simpa using hholds, hd⟩
        rcases hlocked with hheld | hacquires
        · exact hne (h.exclusive j k d a a.call.channel hj hk hlock ⟨hheld, rfl⟩)
        · exact hfreed hacquires d (mem_of_getElem? hj) hlock
      · obtain ⟨hlookup, htracked⟩ := unlocked_step hplace
          (by simpa using fun hh => hlocked (.inl hh))
          (by simpa using fun hh => hlocked (.inr hh)) (fun e => hrestore e rfl) hstep
        exact (h.holding d (mem_of_getElem? hj) hd).imp (hlookup ▸ id) (flagOf_congr hlookup)
          (fun hvalid => htracked hvalid ▸ id) (fun _ _ => id)
    apply h.actHere hk heffect hnew hexclusive hown rfl hothers hreturned
    have hmove := SubCall.move_of_step hstep
    cases hop : a.call.op with
    | remove => exact advances_remove hop hplace hmove
    | add e =>
      exact advances_add hop hsound.subscriber (hsound.ephemeral e (.inl hop)) hplace hholding hout
        (hadd e rfl hop) hmove
    | restore e =>
      exact advances_restore hop hsound.subscriber (hsound.ephemeral e (.inr hop)) hplace hholding
        (hrestore e rfl hop) hmove
  · exact h.actElsewhere hk heffect hnew hexclusive hown hch

end

end Tending

section Leases

structure Known (sid : String) (holder : NodeIdentity) (version : Nat) (y : Sync) : Prop where
  sessionID : y.desired.sessionID = sid
  bounded : y.desired.leaseVersion ≤ version
  owner : y.desired.leaseVersion = version → y.desired.owner = holder
  current : ∀ current, y.pc = .swap current →
    ∃ lease : SessionLease, current = some lease ∧ lease.leaseVersion ≤ y.desired.leaseVersion

structure Leased (sid : String) (holder : NodeIdentity) (version : Nat) (lease : SessionLease) :
    Prop where
  sessionID : lease.sessionID = sid
  bounded : version ≤ lease.leaseVersion
  owner : lease.leaseVersion = version → lease.owner = holder

variable {holder who : NodeIdentity} {version : Nat} {d d' : Directory}
variable {y y' : Sync} {lease : SessionLease}

theorem Known.begin (hsid : n.sessionID c = sid) :
    Known sid holder (n.sessions c).leaseVersion (n.beginSync holder c) :=
  ⟨hsid, le_rfl, fun _ => rfl, nofun⟩

theorem Known.mono (h : Known sid holder version y) {holder' : NodeIdentity} {version' : Nat}
    (hlt : version < version') : Known sid holder' version' y := by
  refine ⟨h.sessionID, h.bounded.trans hlt.le, ?_, h.current⟩
  intro heq
  exact absurd (heq ▸ h.bounded) (Nat.not_le.mpr hlt)

theorem Known.step (h : Known sid holder version y) (hlease : d.leases sid = some lease)
    (hleased : Leased sid holder version lease) (hstep : y.step who d ok = some (d', y')) :
    Known sid holder version y' ∧
      ((d' = d ∧ y'.pc ≠ .returned .ok) ∨
        (y.stores ∧ y'.pc = .returned .ok ∧ y.desired.leaseVersion = version ∧
          lease.leaseVersion = version ∧ Leased sid holder version y.desired ∧
          d' = ⟨Function.update d.leases sid (some y.desired),
            Function.update d.snapshots sid (some y.snapshot)⟩)) := by
  obtain ⟨hsid, hupper, howner, hcurrent⟩ := h
  cases Sync.moves_of_step hstep with
  | read hread =>
    refine ⟨⟨hsid, hupper, howner, ?_⟩, .inl ⟨rfl, by simp⟩⟩
    rintro _ ⟨⟩
    rw [hsid, hlease] at hread ⊢
    exact ⟨lease, rfl, (hread lease rfl).2⟩
  | @stored desired _ _ hequal =>
    obtain ⟨read, rfl, hversion⟩ := hcurrent _ rfl
    rw [hsid, hlease] at hequal
    simp only [clusterSessionLeaseEqual, decide_eq_true_eq] at hequal hversion
    have hlower := hleased.bounded
    have hown : desired.leaseVersion = version := by
      simp only at hupper
      omega
    exact ⟨⟨hsid, hupper, howner, by simp⟩, .inr ⟨rfl, rfl, hown, by omega, ⟨hsid, hown.ge, howner⟩,
      by rw [hsid]⟩⟩
  | _ => exact ⟨⟨hsid, hupper, howner, by simp⟩, .inl ⟨rfl, by simp⟩⟩

end Leases

section Invariant

def Resuming.lease : Resuming sid → Option SessionLease
  | .idle => none
  | .getSnapshot _ lease | .claim _ lease _ | .takeover _ lease _ => some lease

structure Claimed (ch : String) (version : Nat) (d : Directory) (host : Host sid)
    (lease : SessionLease) (snapshot : SessionSnapshot) : Prop where
  plain : Plain snapshot ch
  stored : ∀ stored ∈ d.snapshots sid, SameEntry snapshot stored ch
  bounded : version ≤ lease.leaseVersion
  lease : ∃ desired, d.leases sid = some desired ∧
    desired.HeldBy sid host.self (lease.leaseVersion + 1)

structure Inv (ch : String) (s : State sid) : Prop where
  sessionID : s.node.sessionID s.session = sid
  tended : Tended ch s.session s.node s.calls (s.directory.snapshots sid) s.subscribed
  syncing : ∀ c ∈ s.calls, c.sync ≠ none → c.call.atSync
  lease : ∃ lease, s.directory.leases sid = some lease ∧ Leased sid s.self s.version lease
  known : ∀ y ∈ s.inFlight, Known sid s.self s.version y
  pending : ∀ e, (ch, e) ∈ s.connecting.pending → e = false
  seen : ∀ lease ∈ s.resuming.lease, lease.sessionID = sid
  claimed : ∀ host lease snapshot, s.resuming = .takeover host lease snapshot →
    Claimed ch s.version s.directory host lease snapshot

variable {s s' : State sid} {k : Nat} {y y' : Sync} {d : Directory}
variable {who : NodeIdentity}

theorem Inv.kept (h : Inv ch s) : Kept ch s := by
  intro r hr
  obtain ⟨-, hzero, ⟨snapshot, hstored, hlists⟩, -⟩ := h.tended.kept r hr
  refine ⟨snapshot, hstored, hlists, ?_, ?_⟩
  · rw [hzero]
    exact Nat.zero_le _
  · intro hpos
    rw [hzero] at hpos
    exact absurd hpos (Nat.lt_irrefl 0)

theorem mem_inFlight : y ∈ s.inFlight ↔
    y ∈ s.syncs ∨ (∃ c ∈ s.calls, c.sync = some y) ∨ s.connecting.sync = some y := by
  simp [State.inFlight]

section
variable (h : Inv ch s)
include h

theorem Inv.setDirectory (hy : Known sid s.self s.version y) (hfresh : UpToDate ch s y)
    (hstep : y.step who s.directory ok = some (d, y')) :
    Known sid s.self s.version y' ∧ Inv ch { s with directory := d } ∧
      (y'.pc = .returned .ok → ∀ e, Tracked s.node s.session ch e →
        ∃ snapshot ∈ d.snapshots sid, Lists snapshot ch e) := by
  obtain ⟨lease, hlease, hleased⟩ := h.lease
  obtain ⟨hknown, ⟨rfl, hnot⟩ | ⟨hstores, -, hversion, hstill, hleased', rfl⟩⟩ :=
    hy.step hlease hleased hstep
  · exact ⟨hknown, h, fun hpc => absurd hpc hnot⟩
  · have hsame := hfresh hstores hversion
    have hunclaimed : ∀ host lease' snapshot, s.resuming ≠ .takeover host lease' snapshot := by
      intro host lease' snapshot hresuming
      have hclaimed := h.claimed host lease' snapshot hresuming
      obtain ⟨desired, hdesired, hheld⟩ := hclaimed.lease
      rw [hlease] at hdesired
      cases hdesired
      have hnewer := hclaimed.bounded
      rw [hheld.leaseVersion] at hstill
      omega
    have hstored : update s.directory.snapshots sid (some y.snapshot) sid =
        some y.snapshot := update_self _ _ _
    refine ⟨hknown, { h with
      tended := ?_, lease := ⟨y.desired, update_self _ _ _, hleased'⟩, claimed := ?_ }, ?_⟩
    · simp only [hstored]
      exact h.tended.store hsame
    · intro host lease' snapshot hresuming
      exact absurd hresuming (hunclaimed host lease' snapshot)
    · intro _ e htracked
      exact ⟨y.snapshot, hstored, htracked.lists.of_sameEntry hsame⟩

theorem Inv.spawn (hsound : Sound s.session b) (hidle : b.holds = false)
    (hplace : b.channel = ch → InPlace b) : Inv ch (s.spawn b) := by
  refine { h with tended := h.tended.spawn hsound hidle hplace, syncing := ?_, known := ?_ }
  · exact forall_mem_snoc h.syncing (absurd rfl)
  · intro y hy
    apply h.known y
    rw [mem_inFlight] at hy ⊢
    refine hy.imp id (Or.imp ?_ id)
    rintro ⟨c, hc, hsync⟩
    rcases mem_append.mp hc with hc | hc
    · exact ⟨c, hc, hsync⟩
    · rw [mem_singleton.mp hc] at hsync
      cases hsync

theorem Inv.known_call {c : OwnerCall} (hc : c ∈ s.calls) :
    ∀ y ∈ c.sync, Known sid s.self s.version y :=
  fun y hy => h.known y (mem_inFlight.mpr (.inr (.inl ⟨c, hc, hy⟩)))

theorem Inv.setOwner {node : Node}
    (htended : Tended ch s.session node calls (s.directory.snapshots sid) subscribed)
    (hid : node.sessionID s.session = s.node.sessionID s.session)
    (hversion : (node.sessions s.session).leaseVersion = s.version)
    (hat : ∀ c ∈ calls, c.sync ≠ none → c.call.atSync)
    (hy : ∀ c ∈ calls, ∀ y ∈ c.sync, Known sid s.self s.version y) :
    Inv ch { s with node := node, calls := calls, subscribed := subscribed } := by
  have hversion : State.version { s with
      node := node, calls := calls, subscribed := subscribed } = s.version := hversion
  refine ⟨hid.trans h.sessionID, htended, hat, hversion ▸ h.lease, ?_, h.pending, h.seen,
    hversion ▸ h.claimed⟩
  intro y hy'
  rw [hversion]
  rcases mem_inFlight.mp hy' with hy' | ⟨e, he, hsync⟩ | hy'
  · exact h.known y (mem_inFlight.mpr (.inl hy'))
  · exact hy e he y hsync
  · exact h.known y (mem_inFlight.mpr (.inr (.inr hy')))

theorem Inv.setCall {c : OwnerCall} {node : Node}
    (htended : Tended ch s.session node (s.calls.set k c) (s.directory.snapshots sid) subscribed)
    (hsession : ∃ channels, node.sessions s.session =
      { s.node.sessions s.session with subscribedChannels := channels })
    (hat : c.sync ≠ none → c.call.atSync) (hy : ∀ y ∈ c.sync, Known sid s.self s.version y) :
    Inv ch { s with node := node, calls := s.calls.set k c, subscribed := subscribed } := by
  obtain ⟨channels, hsession⟩ := hsession
  refine h.setOwner htended ?_ ?_ (forall_mem_set h.syncing hat)
    (forall_mem_set (fun _ => h.known_call) hy)
  · simp only [Node.sessionID, hsession]
  · rw [hsession]
    rfl

theorem Inv.call (hok : Undisturbed ch s (.call k ok))
    (hstep : callStep s k ok = some s') : Inv ch s' := by
  obtain ⟨c, hk, ⟨y, ⟨d, y'⟩, hsync, hy, rfl⟩ | ⟨hnone, hat, rfl⟩ |
    ⟨hnone, hat, hblocked, ⟨t, b⟩, hb, rfl⟩⟩ := OwnerCall.step_cases hstep
  · have hc := mem_of_getElem? hk
    have hat := h.syncing c hc (by simp [hsync])
    have hknown := h.known_call hc y hsync
    obtain ⟨hknown', hinv, hlists⟩ := h.setDirectory hknown ((hok c hk).1 y hsync) hy
    have hreturned : ∀ result, y'.pc = .returned result →
        Inv ch { s with directory := d, calls := s.calls.set k ⟨c.call.synced (result = .ok), none⟩ } := by
      intro result hpc
      refine hinv.setCall (hinv.tended.synced hk hat ?_) ⟨_, rfl⟩ (fun hne => absurd rfl hne) nofun
      intro hresult
      exact hlists (by rw [hpc, of_decide_eq_true hresult])
    have hgoing : Inv ch { s with directory := d, calls := s.calls.set k ⟨c.call, some y'⟩ } := by
      refine hinv.setCall (hinv.tended.setCall hk (hinv.tended.sound c hc) rfl rfl id
        (hinv.tended.inPlace c hc) (hinv.tended.holding c hc)) ⟨_, rfl⟩ (fun _ => hat) ?_
      intro z hz
      cases hz
      exact hknown'
    unfold OwnerCall.afterSync
    cases hpc : y'.pc with
    | returned result => exact hreturned result hpc
    | get | swap current => exact hgoing
  · have hc := mem_of_getElem? hk
    refine h.setCall (h.tended.setCall hk (h.tended.sound c hc) rfl rfl id (h.tended.inPlace c hc)
      (h.tended.holding c hc)) ⟨_, rfl⟩ (fun _ => hat) ?_
    intro z hz
    cases hz
    exact Known.begin h.sessionID
  · have hc := mem_of_getElem? hk
    have hsound := h.tended.sound c hc
    have hrestores := (hok c hk).2
    have heffect := SubCall.step_effect (hsound.subscriber.trans hsound.session.symm) hb
    refine h.setCall (h.tended.act hk hat hblocked ?_ ?_ hb) ?_ (fun hne => absurd rfl hne) nofun
    · intro e hch hop
      have hadd := hrestores hch
      rw [Restores, hop] at hadd
      exact hadd
    · intro e hch hop
      have hrestore := hrestores hch
      rw [Restores, hop] at hrestore
      exact hrestore
    · obtain ⟨channels, hsessions⟩ := heffect.touches.sessions
      refine ⟨channels, ?_⟩
      rw [hsessions, hsound.session, update_self]

theorem Inv.setSyncs {syncs : List Sync}
    (hsyncs : ∀ y ∈ syncs, Known sid s.self s.version y) : Inv ch { s with syncs := syncs } := by
  refine { h with known := ?_ }
  intro y hy
  rcases mem_inFlight.mp hy with hy | hy
  · exact hsyncs y hy
  · exact h.known y (mem_inFlight.mpr (.inr hy))

theorem Inv.addSync (hy : Known sid s.self s.version y) :
    Inv ch { s with syncs := s.syncs ++ [y] } := by
  exact h.setSyncs (forall_mem_snoc (fun z hz => h.known z (mem_inFlight.mpr (.inl hz))) hy)

theorem Inv.sync (hok : Undisturbed ch s (.sync k ok))
    (hstep : syncStep s k ok = some s') : Inv ch s' := by
  obtain ⟨y, ⟨d, y'⟩, hk, hy, rfl⟩ := bind_map_eq_some hstep
  have hknown := h.known y (mem_inFlight.mpr (.inl (mem_of_getElem? hk)))
  obtain ⟨hknown', hinv, -⟩ := h.setDirectory hknown (hok y hk) hy
  exact hinv.setSyncs (forall_mem_set (fun z hz => h.known z (mem_inFlight.mpr (.inl hz))) hknown')

theorem Inv.setNode (henabled : t.clusterEnabled = s.node.clusterEnabled)
    (hid : t.sessionID s.session = s.node.sessionID s.session)
    (hversion : (t.sessions s.session).leaseVersion = s.version)
    (htracked : t.tracked s.session = s.node.tracked s.session)
    (hlookup : ∀ x, ∃ raise : Nat → Nat, t.lookupSubscriber x s.session =
      (s.node.lookupSubscriber x s.session).map fun r =>
        { r with deliveredOffset := raise r.deliveredOffset }) :
    Inv ch { s with node := t } := by
  refine h.setOwner (h.tended.setNode henabled ?_ ?_ ?_ htracked) hid hversion h.syncing
    (fun _ => h.known_call)
  · intro x r hr
    obtain ⟨raise, hraise⟩ := hlookup x
    rw [hraise] at hr
    obtain ⟨old, hold, rfl⟩ := map_eq_some_iff.mp hr
    exact h.tended.own x old hold
  · intro hnone
    obtain ⟨raise, hraise⟩ := hlookup ch
    rw [hraise, hnone]
    rfl
  · obtain ⟨raise, hraise⟩ := hlookup ch
    rw [flagOf, hraise, Option.map_map]
    rfl

theorem Inv.deliver (x : String) (offset : Nat) (clients : List String) :
    Inv ch { s with node := s.node.recordDelivered x offset clients } := by
  refine h.setNode rfl rfl rfl rfl ?_
  intro x'
  unfold lookupSubscriber Hub.lookupSubscriber
  by_cases hw : isWildcard x'
  · refine ⟨id, ?_⟩
    rw [if_pos hw, if_pos hw]
    exact map_id'.symm
  · rw [if_neg hw, if_neg hw]
    by_cases hx : x' = x
    · subst hx
      obtain ⟨raise, hraise⟩ := Broadcast.lookup_recordDeliveredOffsets_eq (s.node.hub.subs x') offset
        clients (fun _ => true) (s.node.sessionID s.session)
      refine ⟨raise, ?_⟩
      rw [← hraise]
      simp only [recordDelivered, setHub_hub, update_self]
      rfl
    · refine ⟨id, ?_⟩
      simp only [recordDelivered, setHub_hub, update_of_ne hx]
      exact map_id'.symm

theorem Inv.drop :
    Inv ch { s with
      node := s.node.setSession s.session (s.node.sessions s.session).detach } := by
  have hdetach : ((s.node.sessions s.session).detach).session = (s.node.sessions s.session).session ∧
      ((s.node.sessions s.session).detach).leaseVersion = s.version ∧
      ((s.node.sessions s.session).detach).subscribedChannels =
        (s.node.sessions s.session).subscribedChannels := by
    unfold Session.detach
    split_ifs <;> exact ⟨rfl, rfl, rfl⟩
  have hid : (s.node.setSession s.session (s.node.sessions s.session).detach).sessionID s.session =
      s.node.sessionID s.session := by
    simp [Node.sessionID, setSession, hdetach.1]
  refine h.setNode rfl hid ?_ ?_ ?_
  · simp [setSession, hdetach.2.1]
  · simp [tracked, setSession, hdetach.2.2]
  · intro x
    refine ⟨id, ?_⟩
    rw [lookupSubscriber, hid]
    exact map_id'.symm

theorem Inv.setResuming {resuming : Resuming sid}
    (hseen : ∀ lease ∈ resuming.lease, lease.sessionID = sid)
    (hclaimed : ∀ host lease snapshot, resuming = .takeover host lease snapshot →
      Claimed ch s.version s.directory host lease snapshot) :
    Inv ch { s with resuming := resuming } :=
  { h with seen := hseen, claimed := hclaimed }

theorem Inv.getLease {host : Host sid} (hstep : getLease s host = some s') :
    Inv ch s' := by
  obtain ⟨lease, hlease, rfl⟩ := map_eq_some_iff.mp hstep
  obtain ⟨lease', hlease', hleased⟩ := h.lease
  rw [hlease] at hlease'
  cases hlease'
  split_ifs
  · exact h.setResuming nofun nofun
  · refine h.setResuming ?_ nofun
    intro read hread
    cases hread
    exact hleased.sessionID

theorem Inv.getSnapshot (hstep : getSnapshot s = some s') : Inv ch s' := by
  unfold Chain.getSnapshot at hstep
  split at hstep
  · rename_i host lease hresuming
    obtain ⟨snapshot, -, rfl⟩ := map_eq_some_iff.mp hstep
    refine h.setResuming ?_ nofun
    intro read hread
    cases hread
    exact h.seen lease (by rw [hresuming]; rfl)
  · cases hstep

end

theorem version_pos (s : State sid) : 0 < s.version := by
  unfold State.version Session.leaseVersion
  split_ifs with hzero
  · exact Nat.one_pos
  · exact Nat.pos_of_ne_zero hzero

theorem Inv.claim (h : Inv ch s) (hok : Undisturbed ch s .claim) (hstep : claim s = some s') :
    Inv ch s' := by
  obtain ⟨host, lease, snapshot, d, hresuming, hswap, rfl⟩ := claim_cases hstep
  have hsid : lease.sessionID = sid := h.seen lease (by rw [hresuming]; rfl)
  have hequal := expected_of_compareAndSwapSessionLease hswap
  obtain rfl := compareAndSwapSessionLease_eq_some hswap
  obtain ⟨current, hcurrent, hleased⟩ := h.lease
  set desired := Resume.desiredLease (host.config lease) lease
  have hdesired : desired.sessionID = sid := hsid
  rw [hdesired, hcurrent] at hequal
  simp only [clusterSessionLeaseEqual, decide_eq_true_eq] at hequal
  have hbounded : s.version ≤ lease.leaseVersion := hequal.2.2 ▸ hleased.bounded
  have hclaimed : update s.directory.leases desired.sessionID (some desired) sid = some desired := by
    rw [hdesired]
    exact update_self _ _ _
  obtain ⟨hplain, hstored⟩ := hok snapshot (by rw [hresuming]; rfl)
  refine { h with lease := ⟨_, hclaimed, hsid, ?_, ?_⟩, seen := ?_, claimed := ?_ }
  · exact hbounded.trans (Nat.le_succ _)
  · intro hversion
    exact absurd hversion.le (Nat.not_le.mpr (Nat.lt_succ_of_le hbounded))
  · intro read hread
    cases hread
    exact hsid
  · intro host' lease' snapshot' htakeover
    cases htakeover
    exact ⟨hplain, hstored, hbounded, _, hclaimed, hsid, rfl, rfl⟩

section Adopt
variable {host : Host sid} {lease : SessionLease} {snapshot : SessionSnapshot}
variable {channels : List String}

theorem sessions_adopt : (host.adopt lease snapshot channels).sessions host.session =
    host.adoptIdentity lease snapshot channels := by
  simp [Host.adopt, setSession]

theorem sessionID_adopt : (host.adopt lease snapshot channels).sessionID host.session = sid := by
  rw [sessionID, sessions_adopt]
  rfl

theorem tracked_adopt :
    (host.adopt lease snapshot channels).tracked host.session = channels.toFinset := by
  rw [tracked, sessions_adopt]
  rfl

theorem lookup_adopt (ch : String) :
    (host.adopt lease snapshot channels).lookupSubscriber ch host.session = none := by
  rw [lookupSubscriber, sessionID_adopt]
  have hsame : (host.adopt lease snapshot channels).hub.lookupSubscriber ch sid =
      host.node.hub.lookupSubscriber ch sid := by
    simp only [Host.adopt, setHub_hub, Hub.add]
    split_ifs <;> rfl
  rw [hsame]
  exact host.unknown ch

theorem version_adopt (host : Host sid) (snapshot : SessionSnapshot) (channels : List String)
    (hpos : 0 < lease.leaseVersion) :
    ((host.adopt lease snapshot channels).sessions host.session).leaseVersion =
      lease.leaseVersion + 1 := by
  rw [sessions_adopt]
  simp [Host.adoptIdentity, Session.adoptIdentity, Session.leaseVersion, hpos]

end Adopt

theorem tended_adopt {lease : SessionLease} {snapshot : SessionSnapshot} {host : Host sid}
    {channels : List String} (h : Tended ch c n calls stored subscribed)
    (hplain : Plain snapshot ch) (hsame : ∀ read ∈ stored, SameEntry snapshot read ch)
    (hchannels : channels.toFinset = snapshot.channels) :
    Tended ch host.session (host.adopt lease snapshot channels) [] stored
      (fun x => (subscribed x).map fun r => (r.1, snapshot.channelOffsets x)) := by
  refine ⟨host.enabled, ?_, forall_mem_nil _, Locks.exclusive_nil, forall_mem_nil _,
    forall_mem_nil _, ?_⟩
  · intro x r hr
    rw [lookup_adopt] at hr
    cases hr
  · intro r hr
    obtain ⟨⟨ephemeral, offset⟩, hold, rfl⟩ := map_eq_some_iff.mp hr
    obtain ⟨htracked, -, ⟨read, hread, hlists⟩, -⟩ := h.kept _ hold
    have hmem : (ch, ephemeral) ∈ snapshot.subscriptions :=
      (hsame read hread ephemeral).mpr ((hlists ephemeral).mpr rfl)
    refine ⟨⟨htracked.valid, ?_, ?_⟩, hplain.2, ⟨read, hread, hlists⟩, forall_mem_nil _⟩
    · rw [tracked_adopt, hchannels]
      exact Finset.mem_image_of_mem Prod.fst hmem
    · rw [flagOf, lookup_adopt]
      cases ephemeral with
      | false => rfl
      | true => exact absurd hmem hplain.1

theorem Inv.takeover (h : Inv ch s) {channels : List String}
    (hstep : takeover s channels = some s') : Inv ch s' := by
  unfold Chain.takeover at hstep
  split at hstep
  · rename_i host lease snapshot hresuming
    split_ifs at hstep with hchannels
    cases hstep
    obtain ⟨hplain, hstored, hbounded, desired, hdesired, hheld⟩ :=
      h.claimed host lease snapshot hresuming
    have hversion := version_adopt host snapshot channels ((version_pos s).trans_le hbounded)
    refine ⟨sessionID_adopt, tended_adopt h.tended hplain hstored hchannels.2,
      forall_mem_nil _, ⟨desired, hdesired, hheld.sessionID, ?_, fun _ => hheld.owner⟩, ?_, ?_,
      ?_, ?_⟩
    · rw [hheld.leaseVersion]
      exact hversion.le
    · intro y hy
      rcases mem_inFlight.mp hy with hy | ⟨c, hc, -⟩ | hy
      · exact (h.known y hy).mono ((Nat.lt_succ_of_le hbounded).trans_eq hversion.symm)
      · cases hc
      · cases hy
        exact Known.begin sessionID_adopt
    · intro e he
      cases e with
      | false => rfl
      | true => exact absurd he hplain.1
    · nofun
    · nofun
  · cases hstep

theorem Inv.setConnecting (h : Inv ch s) {connecting : Connecting}
    (hpending : ∀ e, (ch, e) ∈ connecting.pending → e = false)
    (hsync : ∀ y ∈ connecting.sync, Known sid s.self s.version y) :
    Inv ch { s with connecting := connecting } := by
  refine { h with known := ?_, pending := hpending }
  intro y hy
  rcases mem_inFlight.mp hy with hy | hy | hy
  · exact h.known y (mem_inFlight.mpr (.inl hy))
  · exact h.known y (mem_inFlight.mpr (.inr (.inl hy)))
  · exact hsync y hy

theorem Inv.addClient (h : Inv ch s) (hok : Undisturbed ch s (.addClient ok))
    (hstep : addClient s ok = some s') : Inv ch s' := by
  obtain ⟨subscriptions, y, ⟨d, y'⟩, hconnecting, hy, hcases⟩ := addClient_cases hstep
  have hsync : s.connecting.sync = some y := by rw [hconnecting]; rfl
  have hpending := h.pending
  rw [hconnecting] at hpending
  have hknown := h.known y (mem_inFlight.mpr (.inr (.inr hsync)))
  obtain ⟨hknown', hinv, -⟩ := h.setDirectory hknown (hok y hsync) hy
  rcases hcases with rfl | rfl | rfl
  · exact hinv.setConnecting hpending nofun
  · have hnode : Inv ch { s with
        directory := d
        node := s.node.setHub (s.node.hub.removeSession sid) } := by
      refine hinv.setNode rfl rfl rfl rfl (fun x => ⟨id, ?_⟩)
      exact map_id'.symm
    exact hnode.setConnecting nofun nofun
  · refine hinv.setConnecting hpending ?_
    intro z hz
    cases hz
    exact hknown'

theorem Inv.restore (h : Inv ch s) {x : String} {e : Bool} (hstep : restore s x e = some s') :
    Inv ch s' := by
  unfold Chain.restore at hstep
  split at hstep
  · rename_i subscriptions hconnecting
    have hpending := h.pending
    rw [hconnecting] at hpending
    split_ifs at hstep with hmem
    cases hstep
    have hspawned : Inv ch (s.spawn (.restore s.session x e)) := by
      refine h.spawn ⟨rfl, rfl, ?_⟩ rfl ?_
      · rintro e' (hop | hop) <;> cases hop
        rfl
      · intro hx
        obtain rfl : x = ch := hx
        exact ⟨hpending e hmem, .inl rfl⟩
    refine hspawned.setConnecting ?_ nofun
    intro e' he'
    exact hpending e' (Finset.mem_of_mem_erase he')
  · cases hstep

theorem Inv.step (h : Inv ch s) {a : Action sid} (hok : Undisturbed ch s a)
    (hstep : step s a = some s') : Inv ch s' := by
  cases a with
  | add x e =>
    cases hstep
    refine h.spawn ⟨rfl, rfl, ?_⟩ rfl (fun _ => rfl)
    rintro e' (hop | hop) <;> cases hop
    rfl
  | remove x =>
    cases hstep
    refine h.spawn ⟨rfl, rfl, ?_⟩ rfl (fun _ => rfl)
    rintro e' (hop | hop) <;> cases hop
  | call k ok => exact h.call hok hstep
  | refresh =>
    cases hstep
    exact h.addSync (Known.begin h.sessionID)
  | sync k ok => exact h.sync hok hstep
  | straggler y =>
    simp only [Chain.step] at hstep
    split_ifs at hstep with hold
    cases hstep
    obtain ⟨hsid, hversion, hpc⟩ := hold
    refine h.addSync ⟨hsid, hversion.le, fun heq => absurd heq hversion.ne, ?_⟩
    intro current hswap
    rw [hpc] at hswap
    cases hswap
  | deliver x offset clients =>
    cases hstep
    exact h.deliver x offset clients
  | drop =>
    cases hstep
    exact h.drop
  | getLease host => exact h.getLease hstep
  | getSnapshot => exact h.getSnapshot hstep
  | claim => exact h.claim hok hstep
  | takeover channels => exact h.takeover hstep
  | addClient ok => exact h.addClient hok hstep
  | restore x e => exact h.restore hstep

end Invariant

section Runs
variable {s s' : State sid} {as : List (Action sid)}

theorem inv_start (h : Begun s) : Inv ch s := by
  obtain ⟨hcalls, hsyncs, hconnecting, hresuming⟩ := h.idle
  obtain ⟨lease, hlease, hheld⟩ := h.lease
  refine ⟨h.sessionID, ⟨h.enabled, by simp [h.unknown], by simp [hcalls], ?_, by simp [hcalls],
    by simp [hcalls], ?_⟩,
    by simp [hcalls], ⟨lease, hlease, hheld.sessionID, hheld.leaseVersion.ge, fun _ => hheld.owner⟩,
    ?_, ?_, ?_, ?_⟩
  · rw [hcalls]
    exact Locks.exclusive_nil
  · intro r hr
    rw [h.unsubscribed] at hr
    cases hr
  · simp [State.inFlight, hcalls, hsyncs, hconnecting, Connecting.sync]
  · simp [hconnecting, Connecting.pending]
  · simp [hresuming, Resuming.lease]
  · simp [hresuming]

/-- In every run that leaves the channel undisturbed, the stored snapshot keeps it from the
acknowledgement of the subscription on, whatever nodes the session is resumed on. -/
theorem snapshot_kept (ch : String) (hbegun : Begun s) (hrun : run s as = some s')
    (hok : Transition.Along step (Undisturbed ch) s as) : Kept ch s' := by
  have hinv : Inv ch s' :=
    Transition.invariant_along (inv_start hbegun) (fun _ _ _ h hok hstep => h.step hok hstep) hrun hok
  exact hinv.kept

def quietNode (sid : String) : Node :=
  .new true fun _ => { Session.newClient sid ⟨0, 0, .protobuf⟩ with state := .attached }

def hostB : Host "s1" where
  self := ⟨"b", "9"⟩
  node := quietNode "s2"
  session := 0
  authUser := ""
  authNs := ""
  enabled := rfl
  unknown ch := Hub.lookupSubscriber_empty ch "s1"

def connected : State "s1" where
  self := ⟨"a", "7"⟩
  node := quietNode "s1"
  session := 0
  calls := []
  syncs := []
  connecting := .restoring ∅
  directory := {
    leases := fun sid =>
      if sid = "s1" then some ⟨"s1", ⟨"a", "7"⟩, "", "", "", 1, true⟩ else none
    snapshots := fun _ => none }
  resuming := .idle
  subscribed := fun _ => none

theorem begun_connected : Begun connected :=
  ⟨by decide, rfl, rfl, ⟨_, rfl, rfl, rfl, rfl⟩, ⟨rfl, rfl, rfl, rfl⟩,
    fun ch => Hub.lookupSubscriber_empty ch "s1", rfl⟩

def moveToB : List (Action "s1") :=
  [.getLease hostB, .getSnapshot, .claim, .takeover ["room"], .addClient true, .addClient true]

def plainMove : List (Action "s1") :=
  .add "room" false :: List.replicate 8 (.call 0 true) ++ moveToB ++
    .restore "room" false :: List.replicate 7 (.call 0 true) ++
    [.deliver "room" 5 ["s1"], .refresh, .drop, .sync 0 true, .sync 0 true]

theorem snapshot_kept_plainMove :
    ∃ s, run connected plainMove = some s ∧ s.self = ⟨"b", "9"⟩ ∧
      s.subscribed "room" = some (false, 0) ∧ Kept "room" s :=
  ⟨_, rfl, rfl, rfl, snapshot_kept "room" begun_connected (rfl : run connected plainMove = _)
    (by decide)⟩

/-- The ephemeral subscription has delivered offset 5, and the snapshot says so; the snapshot that
`AddClient` stores on the next node has neither the flag nor the offset. -/
theorem snapshot_lost :
    Begun connected ∧
      ∃ s stored, run connected (.add "room" true :: List.replicate 8 (.call 0 true) ++
          [.deliver "room" 5 ["s1"], .refresh, .sync 0 true, .sync 0 true] ++ moveToB) = some s ∧
        s.subscribed "room" = some (true, 5) ∧ s.directory.snapshots "s1" = some stored ∧
        stored.subscriptions = {("room", false)} ∧ recoveryCursor stored "room" = none ∧
        ¬ Kept "room" s := by
  refine ⟨begun_connected, _, _, rfl, rfl, rfl, by decide, rfl, ?_⟩
  intro hkept
  obtain ⟨stored, hstored, hkeeps⟩ := hkept _ rfl
  cases hstored
  exact absurd hkeeps.offset (by decide)

end Runs

end MessageLoop.Chain
