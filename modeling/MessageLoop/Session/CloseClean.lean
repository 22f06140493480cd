import MessageLoop.Lib.Locks
import MessageLoop.Runtime.Cells
import MessageLoop.Session.Close

/-!
When `Close` leaves nothing behind.

Seen from one channel, the session's subscription, the broker's count and the tracked set form a
cell. A call that is inside the lock of the channel knows whether the session is subscribed, and how
far the broker's count is from what the hub calls for (`owed`, `surplus`). A subscription of a
closed session is accounted for by a call that is going to remove it.
-/

namespace MessageLoop.Close

open Topics Cells List

section Stages

def wellFormed : CallOp → Pc → Bool
  | .add _, .start | .add _, .commit _ | .add _, .rollback _ _ | .add _, .returned _ => true
  | .remove, .start | .remove, .commit _ | .remove, .returned _ => true
  | .restore _, .commit _ | .restore _, .rollback _ _ => false
  | .restore _, _ => true
  | _, _ => false

/-- Whether the session is subscribed to the channel, as far as the call knows. -/
def known : CallOp → Pc → Option Bool
  | .add _, .commit .hub => some false
  | .add _, .commit _ | .add _, .rollback _ _ => some true
  | .remove, .commit .hub => some true
  | .remove, .commit _ => some false
  | .restore _, .restoreAdd | .restore _, .undoUntrack | .restore _, .undoUnsubscribe => some false
  | .restore _, .restoreSubscribe | .restore _, .restoreRemove | .restore _, .restoreTrack =>
    some true
  | _, _ => none

def added : CallOp → Pc → Bool
  | .add _, .commit .hub => false
  | .add _, .commit _ | .add _, .rollback _ _ => true
  | .restore _, .restoreSubscribe | .restore _, .restoreRemove | .restore _, .restoreTrack => true
  | _, _ => false

/-- Interest that the hub calls for and the broker does not have yet, or not any more. -/
def owed : CallOp → Pc → Bool → Nat
  | .add _, .commit .client, flag | .add _, .commit .broker, flag
  | .add _, .rollback _ .client, flag | .add _, .rollback _ .hub, flag
  | .restore _, .restoreSubscribe, flag | .restore _, .restoreRemove, flag => flag.toNat
  | _, _, _ => 0

/-- Interest that the broker still has for a subscription that is gone. -/
def surplus : CallOp → Pc → Bool → Nat
  | .remove, .commit .client, flag | .remove, .commit .broker, flag
  | .restore _, .undoUntrack, flag | .restore _, .undoUnsubscribe, flag => flag.toNat
  | _, _, _ => 0

def loose : CallOp → Pc → Bool
  | .add _, .commit .client | .add _, .rollback _ .hub => true
  | .restore _, .restoreSubscribe | .restore _, .restoreRemove | .restore _, .restoreTrack => true
  | _, _ => false

/-- The call is going to remove the subscription from a closed session. -/
def removes : CallOp → Pc → Bool
  | .remove, .start | .remove, .commit .hub => true
  | .add _, .commit .client | .add _, .rollback _ _ => true
  | _, _ => false

end Stages

section Protocol
variable {closed : Prop} {v w : Cell} {ch : String} {flag : Bool} {op : CallOp} {pc : Pc}

structure Fits (v : Cell) (op : CallOp) (pc : Pc) (flag : Bool) : Prop where
  subscribed : ∀ b, known op pc = some b → v.subscribed = b
  last : added op pc → v.last = flag
  ledger : v.interest + owed op pc flag = v.wants + surplus op pc flag

structure Advances (closed : Prop) (v w : Cell) (a b : SubCall) : Prop where
  shape : wellFormed b.op b.pc
  fits : Fits w b.op b.pc b.flag
  opened : (v.subscribed → v.tracked ∨ loose a.op a.pc) → w.subscribed → w.tracked ∨ loose b.op b.pc
  closing : closed → w.subscribed → removes a.op a.pc ∨ v.subscribed = false →
    removes b.op b.pc ∨ a.pc = .restoreAdd

variable {n t : Node} {a b : SubCall} {ok : Bool}

def Advance (n : Node) (a : SubCall) (t : Node) (b : SubCall) : Prop :=
  ∃ w, Updates a.session a.channel n t w ∧
    Advances ((n.sessions a.session).state = .closed) (cell n a.session a.channel) w a b

theorem Advances.kept (hshape : wellFormed b.op b.pc) (hfits : Fits w b.op b.pc b.flag)
    (hsubscribed : w.subscribed = v.subscribed)
    (hloose : v.subscribed → v.tracked ∨ loose a.op a.pc → w.tracked ∨ loose b.op b.pc)
    (hremoves : closed → v.subscribed → removes a.op a.pc → removes b.op b.pc) :
    Advances closed v w a b := by
  refine ⟨hshape, hfits, ?_, ?_⟩
  · intro hv hw
    rw [hsubscribed] at hw
    exact hloose hw (hv hw)
  · intro hclosed hw hr
    rw [hsubscribed] at hw
    rcases hr with hr | hnone
    · exact .inl (hremoves hclosed hw hr)
    · rw [hw] at hnone
      cases hnone

theorem Advances.removed (hshape : wellFormed b.op b.pc) (hfits : Fits w b.op b.pc b.flag)
    (hsubscribed : w.subscribed = false) :
    Advances closed v w a b := by
  have hnone : ¬ w.subscribed := by simp [hsubscribed]
  exact ⟨hshape, hfits, fun _ hw => absurd hw hnone, fun _ hw => absurd hw hnone⟩

theorem balanced_of_added {c : SessionRef} (hflag : (n.removeSub ch c).1 = flag)
    (hbalanced : n.interest ch + flag.toNat = n.hub.wants ch + 0) :
    n.interest ch + 0 = n.hub.wants ch - (n.removeSub ch c).1.toNat + 0 := by
  rw [hflag]
  omega

theorem balanced_of_removed {interest wants : Nat} {last : Bool} (hle : last.toNat ≤ wants)
    (hbalanced : interest + 0 = wants + 0) :
    interest + 0 = wants - last.toNat + last.toNat := by
  omega

theorem Advances.same {interest : Nat} (hshape : wellFormed b.op b.pc)
    (hfits : Fits { v with interest } b.op b.pc b.flag)
    (hloose : loose b.op b.pc = loose a.op a.pc) (hremoves : removes a.op a.pc → removes b.op b.pc) :
    Advances closed v { v with interest } a b :=
  .kept hshape hfits rfl (fun _ h => hloose ▸ h) (fun _ _ => hremoves)

theorem Fits.idle (hknown : known op pc = none) (hadded : added op pc = false)
    (hledger : v.interest + owed op pc flag = v.wants + surplus op pc flag) :
    Fits v op pc flag := by
  refine ⟨?_, ?_, hledger⟩
  · rw [hknown]
    nofun
  · rw [hadded]
    nofun

theorem Fits.settled {b : Bool} (hknown : known op pc = some b) (hsubscribed : v.subscribed = b)
    (hadded : added op pc = false)
    (hledger : v.interest + owed op pc flag = v.wants + surplus op pc flag) :
    Fits v op pc flag := by
  refine ⟨?_, ?_, hledger⟩
  · rw [hknown]
    rintro _ ⟨⟩
    exact hsubscribed
  · rw [hadded]
    nofun

theorem Fits.fresh {first : Bool} (hknown : known op pc = some true)
    (howed : owed op pc first = first.toNat) (hsurplus : surplus op pc first = 0)
    (hbalanced : n.interest ch = n.hub.wants ch) (hsubscribed : v.subscribed = true)
    (hlast : v.last = first) (hwants : v.wants = n.hub.wants ch + first.toNat)
    (hinterest : v.interest = n.interest ch) :
    Fits v op pc first := by
  refine ⟨?_, fun _ => hlast, ?_⟩
  · rw [hknown]
    rintro _ ⟨⟩
    exact hsubscribed
  · rw [howed, hsurplus, hwants, hinterest, hbalanced]
    rfl

section
variable (hpat : n.hub.Patterned (n.sessionID a.session)) (hshape : wellFormed a.op a.pc)
variable (hfits : Fits (cell n a.session a.channel) a.op a.pc a.flag)
include hpat hshape hfits

theorem advance_add {e : Bool} (hop : a.op = .add e) (hsub : a.subscriber.session = a.session)
    (hok : ∀ failed, a.pc = .rollback failed .broker → ok)
    (h : SubCall.Move n a ok t b) : Advance n a t b := by
  obtain ⟨op, c, ch, sub, flag, pc⟩ := a
  obtain rfl : op = .add e := hop
  obtain rfl : sub.session = c := hsub
  obtain ⟨hsubscribed, hlast, hledger⟩ := hfits
  cases h with
  | addFound _ => exact ⟨_, updates_refl, .same rfl (.idle rfl rfl hledger) rfl id⟩
  | addStart hlookup =>
    have hnone : (cell n sub.session ch).subscribed = false := by simp [cell, hlookup]
    exact ⟨_, updates_refl, .same rfl (.settled rfl hnone rfl hledger) rfl id⟩
  | addCommit _ hcommit =>
    cases hcommit with
    | hub hadd =>
      have hnone : n.lookupSubscriber ch sub.session = none := by
        simpa [cell] using hsubscribed false rfl
      exact ⟨_, updates_addSub rfl hnone hadd, rfl, .fresh rfl rfl rfl hledger rfl rfl rfl rfl,
        fun _ _ => .inr rfl, fun _ _ _ => .inl rfl⟩
    | client hopen =>
      exact ⟨_, updates_forceTrackChannel, .kept rfl ⟨hsubscribed, hlast, hledger⟩ rfl
        (fun _ _ => .inl trivial) (fun hclosed => absurd hclosed hopen)⟩
    | brokerKept =>
      exact ⟨_, updates_refl, .same rfl ⟨hsubscribed, hlast, hledger⟩ rfl id⟩
    | broker =>
      exact ⟨_, updates_setInterest, .same rfl ⟨hsubscribed, hlast, hledger⟩ rfl id⟩
    | session hsync =>
      exact ⟨_, updates_sync hsync, .same rfl ⟨hsubscribed, hlast, hledger⟩ rfl id⟩
    | channel hadjust =>
      exact ⟨_, updates_adjust hadjust, .same rfl (.idle rfl rfl hledger) rfl id⟩
  | @commitFailed _ _ _ _ _ _ k _ herr =>
    cases k with
    | hub => exact ⟨_, updates_refl, .same rfl (.idle rfl rfl hledger) rfl id⟩
    | client =>
      exact ⟨_, updates_refl, .same rfl ⟨hsubscribed, hlast, hledger⟩ rfl id⟩
    | broker =>
      cases flag with
      | false => cases herr
      | true =>
        exact ⟨_, updates_refl,
          .same rfl ⟨hsubscribed, hlast, hledger⟩ rfl (fun _ => rfl)⟩
    | session | channel =>
      exact ⟨_, updates_refl, .same rfl ⟨hsubscribed, hlast, hledger⟩ rfl (fun _ => rfl)⟩
  | @rollback _ _ _ _ _ _ failed k =>
    cases k with
    | hub =>
      obtain ⟨last, hupdates⟩ := updates_removeSub hpat (hsubscribed true rfl)
      exact ⟨_, hupdates, .removed rfl (.idle rfl rfl (balanced_of_added (hlast rfl) hledger)) rfl⟩
    | client =>
      exact ⟨_, updates_untrackChannel, .kept rfl ⟨hsubscribed, hlast, hledger⟩ rfl
        (fun _ _ => .inr rfl) (fun _ _ hr => hr)⟩
    | broker =>
      cases flag with
      | false => exact ⟨_, updates_refl, .same rfl ⟨hsubscribed, hlast, hledger⟩ rfl id⟩
      | true =>
        obtain rfl : ok = true := hok failed rfl
        refine ⟨_, updates_setInterest, .same rfl ⟨hsubscribed, hlast, ?_⟩ rfl id⟩
        have hle : (n.removeSub ch sub.session).1.toNat ≤ n.hub.wants ch :=
          last_le_wants hpat (hsubscribed true rfl)
        rw [show (n.removeSub ch sub.session).1 = true from hlast rfl, Bool.toNat_true] at hle
        have hbalanced : n.interest ch + 0 = n.hub.wants ch + 0 := hledger
        show n.interest ch - 1 + 1 = n.hub.wants ch + 0
        omega
    | session =>
      exact ⟨_, updates_getD (fun _ hr => updates_sync hr),
        .same rfl ⟨hsubscribed, hlast, hledger⟩ rfl id⟩
    | channel =>
      exact ⟨_, updates_getD (fun _ hr => updates_adjust hr),
        .same rfl ⟨hsubscribed, hlast, hledger⟩ rfl id⟩
  | _ => cases hshape

theorem advance_remove (hop : a.op = .remove)
    (hok : ∀ k, a.pc = .commit k → ok) (h : SubCall.Move n a ok t b) : Advance n a t b := by
  obtain ⟨op, c, ch, sub, flag, pc⟩ := a
  obtain rfl : op = .remove := hop
  obtain ⟨hsubscribed, hlast, hledger⟩ := hfits
  cases h with
  | removeMissing hlookup =>
    have hnone : (cell n c ch).subscribed = false := by simp [cell, hlookup]
    exact ⟨_, updates_refl, .removed rfl (.idle rfl rfl hledger) hnone⟩
  | removeStart hlookup =>
    have hsome : (cell n c ch).subscribed = true := by simp [cell, hlookup]
    exact ⟨_, updates_refl, .same rfl (.settled rfl hsome rfl hledger) rfl (fun _ => rfl)⟩
  | removeCommit hcommit =>
    cases hcommit with
    | hub hremove =>
      obtain ⟨hle, last, hupdates⟩ := updates_of_removeSub hpat hremove
      exact ⟨_, hupdates, .removed rfl (.settled rfl rfl rfl (balanced_of_removed hle hledger)) rfl⟩
    | client =>
      exact ⟨_, updates_untrackChannel, .removed rfl ⟨hsubscribed, hlast, hledger⟩ (hsubscribed false rfl)⟩
    | brokerKept =>
      exact ⟨_, updates_refl, .removed rfl ⟨hsubscribed, hlast, hledger⟩ (hsubscribed false rfl)⟩
    | broker =>
      refine ⟨_, updates_setInterest, .removed rfl ⟨hsubscribed, hlast, ?_⟩ (hsubscribed false rfl)⟩
      exact congrArg (· - 1) hledger
    | session hsync =>
      exact ⟨_, updates_sync hsync, .removed rfl ⟨hsubscribed, hlast, hledger⟩ (hsubscribed false rfl)⟩
    | channel hadjust =>
      exact ⟨_, updates_adjust hadjust, .removed rfl (.idle rfl rfl hledger) (hsubscribed false rfl)⟩
  | @commitFailed _ _ _ _ _ _ k _ herr =>
    obtain rfl : ok = true := hok k rfl
    obtain ⟨rfl, hlookup⟩ := removeStep_fails herr
    have hsome := hsubscribed true rfl
    simp [cell, hlookup] at hsome
  | addCommit hne _ => exact absurd rfl hne
  | _ => cases hshape

theorem advance_restore {e : Bool} (hop : a.op = .restore e)
    (hsub : a.subscriber.session = a.session) (hlocked : a.acquires ∨ a.holds)
    (hok : a.pc = .undoUnsubscribe → ok) (h : SubCall.Move n a ok t b) : Advance n a t b := by
  obtain ⟨op, c, ch, sub, flag, pc⟩ := a
  obtain rfl : op = .restore e := hop
  obtain rfl : sub.session = c := hsub
  obtain ⟨hsubscribed, hlast, hledger⟩ := hfits
  cases h with
  | restoreFound _ => exact ⟨_, updates_refl, .same rfl (.idle rfl rfl hledger) rfl id⟩
  | restoreStart hlookup =>
    have hnone : (cell n sub.session ch).subscribed = false := by simp [cell, hlookup]
    exact ⟨_, updates_refl, .removed rfl (.settled rfl hnone rfl hledger) hnone⟩
  | restoreAdd hadd =>
    have hnone : n.lookupSubscriber ch sub.session = none := by
      simpa [cell] using hsubscribed false rfl
    exact ⟨_, updates_addSub rfl hnone hadd, rfl, .fresh rfl rfl rfl hledger rfl rfl rfl rfl,
      fun _ _ => .inr rfl, fun _ _ _ => .inr rfl⟩
  | restoreAddFailed _ | undoUnsubscribeKept =>
    exact ⟨_, updates_refl, .removed rfl (.idle rfl rfl hledger) (hsubscribed false rfl)⟩
  | restoreSubscribeKept | restoreSubscribeFailed =>
    exact ⟨_, updates_refl, .same rfl ⟨hsubscribed, hlast, hledger⟩ rfl id⟩
  | restoreSubscribe =>
    exact ⟨_, updates_setInterest, .same rfl ⟨hsubscribed, hlast, hledger⟩ rfl id⟩
  | restoreRemove =>
    obtain ⟨last, hupdates⟩ := updates_removeSub hpat (hsubscribed true rfl)
    exact ⟨_, hupdates, .removed rfl (.idle rfl rfl (balanced_of_added (hlast rfl) hledger)) rfl⟩
  | restoreTrack =>
    exact ⟨_, updates_forceTrackChannel, .kept rfl (.idle rfl rfl hledger) rfl
      (fun _ _ => .inl trivial) (fun _ _ hr => hr)⟩
  | undoMissing hremove =>
    exact ⟨_, updates_refl,
      .removed rfl (.idle rfl rfl hledger) (subscribed_of_removeSub hremove)⟩
  | undoRemove hremove =>
    obtain ⟨hle, last, hupdates⟩ := updates_of_removeSub hpat hremove
    exact ⟨_, hupdates, .removed rfl (.settled rfl rfl rfl (balanced_of_removed hle hledger)) rfl⟩
  | undoUntrack =>
    exact ⟨_, updates_untrackChannel, .removed rfl ⟨hsubscribed, hlast, hledger⟩ (hsubscribed false rfl)⟩
  | undoUnsubscribe =>
    obtain rfl : ok = true := hok rfl
    refine ⟨_, updates_setInterest, .removed rfl (.idle rfl rfl ?_) (hsubscribed false rfl)⟩
    exact congrArg (· - 1) hledger
  | restoreCheck | restorePresence | restoreUntrack | restoreAdjust =>
    rcases hlocked with hlocked | hlocked <;> cases hlocked
  | _ => cases hshape

end

theorem unlocked_step (hfree : a.acquires = false) (hout : a.holds = false)
    (hshape : wellFormed a.op a.pc) (h : a.step n ok = some (t, b)) :
    wellFormed b.op b.pc ∧ b.holds = false ∧ removes a.op a.pc = false ∧
      ∃ p, Updates a.session a.channel n t { cell n a.session a.channel with tracked := p } ∧
        ((cell n a.session a.channel).tracked → p ∨ a.pc = .restoreUntrack) := by
  obtain ⟨op, c, ch, sub, flag, pc⟩ := a
  cases op with
  | add e | remove =>
    cases pc with
    | start => cases hfree
    | commit _ | rollback _ _ => cases hout
    | returned r => cases h
    | _ => cases hshape
  | restore e =>
    cases pc with
    | restoreCheck | restorePresence =>
      cases h
      cases ok <;> exact ⟨rfl, rfl, rfl, _, updates_refl, .inl⟩
    | restoreUntrack =>
      cases h
      exact ⟨rfl, rfl, rfl, _, updates_untrackChannel, fun _ => .inr rfl⟩
    | restoreAdjust =>
      cases h
      exact ⟨rfl, rfl, rfl, _, updates_getD (fun _ hr => updates_adjust hr), .inl⟩
    | returned r => cases h
    | start | undoRemove => cases hfree
    | commit _ | rollback _ _ | restoreAdd | restoreSubscribe | restoreRemove | restoreTrack
    | undoUntrack | undoUnsubscribe => cases hout

end Protocol

section Runs

def holdsLock (a : SubCall) (ch : String) : Prop :=
  a.holds ∧ a.channel = ch

/-- A subscription is tracked, or about to be; of a closed session, about to be removed. -/
structure AccountedFor (s : State) (ch : String) : Prop where
  opened : ¬ s.closed → ch ∈ s.tracked ∨ ∃ a ∈ s.calls, a.channel = ch ∧ loose a.op a.pc
  closing : s.closed → ∃ a ∈ s.calls, a.channel = ch ∧ removes a.op a.pc

structure Tidy (s : State) : Prop where
  calls : ∀ a ∈ s.calls, a.session = s.session ∧ wellFormed a.op a.pc ∧
    (a.op ≠ .remove → a.subscriber.session = s.session)
  patterned : s.node.hub.Patterned (s.node.sessionID s.session)
  exclusive : Locks.Exclusive holdsLock s.calls
  holders : ∀ a ∈ s.calls, a.holds → Fits (cell s.node s.session a.channel) a.op a.pc a.flag
  free : ∀ ch, (∀ a ∈ s.calls, ¬ holdsLock a ch) → s.node.interest ch = s.node.hub.wants ch
  accounted : ∀ ch, s.lookupSubscriber ch ≠ none → AccountedFor s ch

variable {s s' : State}

theorem tidy_start (hs : Consistent s) : Tidy s := by
  have hidle : ∀ a, a ∉ s.calls := by simp [hs.idle]
  refine ⟨fun a ha => absurd ha (hidle a), hs.patterned, ?_, fun a ha => absurd ha (hidle a),
    fun ch _ => hs.interest ch, ?_⟩
  · rw [hs.idle]
    exact Locks.exclusive_nil
  · intro ch hch
    exact ⟨fun _ => .inl (hs.tracked ch hch), fun hclosed => absurd hclosed hs.live⟩

theorem Tidy.spawn (hs : Tidy s) {calls : List SubCall}
    (hcalls : ∀ a ∈ calls, a.session = s.session ∧ wellFormed a.op a.pc ∧
      (a.op ≠ .remove → a.subscriber.session = s.session))
    (hidle : ∀ a ∈ calls, a.holds = false) : Tidy { s with calls := s.calls ++ calls } := by
  refine ⟨forall_mem_append.mpr ⟨hs.calls, hcalls⟩, hs.patterned, ?_, ?_, ?_, ?_⟩
  · apply hs.exclusive.append
    intro a ha ch hlock
    rw [holdsLock, hidle a ha] at hlock
    cases hlock.1
  · refine forall_mem_append.mpr ⟨hs.holders, fun a ha hholds => ?_⟩
    rw [hidle a ha] at hholds
    cases hholds
  · intro ch hfree
    exact hs.free ch (fun a ha => hfree a (mem_append_left _ ha))
  · intro ch hch
    obtain ⟨hopened, hclosing⟩ := hs.accounted ch hch
    refine ⟨fun hopen => (hopened hopen).imp_right ?_, fun hclosed => ?_⟩
    · rintro ⟨a, ha, hr⟩
      exact ⟨a, mem_append_left _ ha, hr⟩
    · obtain ⟨a, ha, hr⟩ := hclosing hclosed
      exact ⟨a, mem_append_left _ ha, hr⟩

variable {k : Nat} {a b : SubCall} {t : Node} {w : Cell} {ch : String} {ok : Bool}

theorem closed_of_updates {calls : List SubCall} (hup : Updates s.session ch s.node t w) :
    State.closed ⟨s.session, t, calls⟩ ↔ s.closed := by
  show (t.sessions s.session).state = .closed ↔ (s.node.sessions s.session).state = .closed
  rw [hup.state]

theorem AccountedFor.other (h : AccountedFor s ch) (hk : s.calls[k]? = some a)
    (hch : ch ≠ a.channel) (hup : Updates s.session a.channel s.node t w) :
    AccountedFor ⟨s.session, t, s.calls.set k b⟩ ch := by
  constructor
  · intro hopen
    rcases h.opened (fun hc => hopen ((closed_of_updates hup).mpr hc)) with htracked | ⟨d, hd, rfl, hr⟩
    · left
      have hcell := congrArg Cell.tracked (hup.others ch hch)
      exact hcell.mpr htracked
    · exact .inr ⟨d, Locks.mem_set_of_mem_ne hk hd fun he => hch (he ▸ rfl), rfl, hr⟩
  · intro hclosed
    obtain ⟨d, hd, rfl, hr⟩ := h.closing ((closed_of_updates hup).mp hclosed)
    exact ⟨d, Locks.mem_set_of_mem_ne hk hd fun he => hch (he ▸ rfl), rfl, hr⟩

theorem holds_of_loose (h : loose a.op a.pc) : a.holds := by
  obtain ⟨op, c, x, sub, flag, pc⟩ := a
  cases op <;> cases pc <;> first | rfl | cases h

theorem removes_of_loose (h : loose a.op a.pc) (hrestoring : restoring a = false) :
    removes a.op a.pc := by
  obtain ⟨op, c, x, sub, flag, pc⟩ := a
  cases op with
  | add e =>
    cases pc with
    | commit k => cases k <;> first | rfl | cases h
    | rollback failed k => rfl
    | _ => cases h
  | remove => cases h
  | restore e =>
    cases pc with
    | restoreSubscribe | restoreRemove | restoreTrack => cases hrestoring
    | _ => cases h

theorem settled_of_not_holds (h : ¬ a.holds) :
    owed a.op a.pc a.flag = 0 ∧ surplus a.op a.pc a.flag = 0 := by
  obtain ⟨op, c, x, sub, flag, pc⟩ := a
  cases op <;> cases pc <;> first | exact ⟨rfl, rfl⟩ | exact absurd rfl h

theorem fits_of_acquires {v : Cell} (h : a.acquires) (hsettled : v.interest = v.wants) :
    Fits v a.op a.pc a.flag := by
  obtain ⟨op, c, x, sub, flag, pc⟩ := a
  cases pc with
  | start | undoRemove => cases op <;> exact ⟨nofun, nofun, hsettled⟩
  | _ => cases h

section Call
variable (hs : Tidy s) (hk : s.calls[k]? = some a)
include hs hk

theorem Tidy.move (hcont : SubCall.Continues s.node a b) (hshape : wellFormed b.op b.pc)
    (hup : Updates s.session a.channel s.node t w)
    (htake : b.holds → a.holds ∨ ∀ d ∈ s.calls, ¬ holdsLock d a.channel)
    (hothers : ∀ (j : Nat) (d : SubCall), j ≠ k → s.calls[j]? = some d → holdsLock d a.channel →
      Fits w d.op d.pc d.flag) (hfits : b.holds → Fits w b.op b.pc b.flag)
    (hfree : (∀ d ∈ s.calls.set k b, ¬ holdsLock d a.channel) → w.interest = w.wants)
    (haccounted : w.subscribed → AccountedFor ⟨s.session, t, s.calls.set k b⟩ a.channel) :
    Tidy ⟨s.session, t, s.calls.set k b⟩ := by
  have ha := mem_of_getElem? hk
  obtain ⟨hsession, -, hsubscriber⟩ := hs.calls a ha
  refine ⟨?_, ?_, ?_, ?_, ?_, ?_⟩
  · refine forall_mem_set hs.calls ⟨hcont.session.trans hsession, hshape, ?_⟩
    rw [hcont.op]
    intro hne
    rw [hcont.subscriber.resolve_right fun hremove => hne hremove.1]
    exact hsubscriber hne
  · show t.hub.Patterned (t.sessionID s.session)
    rw [hup.sessionID]
    exact hup.patterned hs.patterned
  · apply hs.exclusive.set hk
    rintro ch ⟨hholds, hch⟩
    rw [hcont.channel] at hch
    subst hch
    exact (htake hholds).imp_left (fun hholds => ⟨hholds, rfl⟩)
  · intro d hd hholds
    obtain ⟨j, hj⟩ := mem_iff_getElem?.mp hd
    rcases Locks.getElem?_set_cases hj with ⟨-, rfl⟩ | ⟨hne, hj⟩
    · rw [hcont.channel, hup.here]
      exact hfits hholds
    · by_cases hch : d.channel = a.channel
      · rw [hch, hup.here]
        exact hothers j d hne hj ⟨hholds, hch⟩
      · show Fits (cell t s.session d.channel) _ _ _
        rw [hup.others _ hch]
        exact hs.holders d (mem_of_getElem? hj) hholds
  · intro ch hnone
    by_cases hch : ch = a.channel
    · subst hch
      have hw := hfree hnone
      rw [← hup.here] at hw
      exact hw
    · have hcell := hup.others ch hch
      have hold := hs.free ch ?_
      · calc t.interest ch = s.node.interest ch := congrArg Cell.interest hcell
          _ = s.node.hub.wants ch := hold
          _ = t.hub.wants ch := (congrArg Cell.wants hcell).symm
      · rintro d hd ⟨hholds, hdch⟩
        subst hdch
        exact hnone d (Locks.mem_set_of_mem_ne hk hd fun he => hch (he ▸ rfl)) ⟨hholds, rfl⟩
  · intro ch hlookup
    by_cases hch : ch = a.channel
    · subst hch
      apply haccounted
      rw [← hup.here]
      exact Option.isSome_iff_ne_none.mpr hlookup
    · have hcell := congrArg Cell.subscribed (hup.others ch hch)
      have hold : s.lookupSubscriber ch ≠ none := by
        apply Option.isSome_iff_ne_none.mp
        rw [← show _ = (s.lookupSubscriber ch).isSome from hcell]
        exact Option.isSome_iff_ne_none.mpr hlookup
      exact (hs.accounted ch hold).other hk hch hup

theorem Tidy.unlocked (hfree : a.acquires = false) (hout : a.holds = false)
    (hok : Orderly s (.call k ok)) (h : a.step s.node ok = some (t, b)) :
    Tidy ⟨s.session, t, s.calls.set k b⟩ := by
  have ha := mem_of_getElem? hk
  obtain ⟨hsession, hshape, -⟩ := hs.calls a ha
  obtain ⟨hshape', hidle, hkeeps, p, hup, htracked⟩ := unlocked_step hfree hout hshape h
  rw [hsession] at hup htracked
  refine hs.move hk (SubCall.move_of_step h).continues hshape' hup ?_ ?_ ?_ ?_ ?_
  · intro hholds
    rw [hidle] at hholds
    cases hholds
  · intro j d _ hj hlock
    have hfits := hs.holders d (mem_of_getElem? hj) hlock.1
    rw [hlock.2] at hfits
    exact { hfits with }
  · intro hholds
    rw [hidle] at hholds
    cases hholds
  · intro hnone
    apply hs.free a.channel
    intro d hd hlock
    refine hnone d (Locks.mem_set_of_mem_ne hk hd ?_) hlock
    rintro rfl
    rw [holdsLock, hout] at hlock
    cases hlock.1
  · intro hw
    have hlookup : s.lookupSubscriber a.channel ≠ none := Option.isSome_iff_ne_none.mp hw
    obtain ⟨hopened, hclosing⟩ := hs.accounted a.channel hlookup
    constructor
    · intro hopen
      have hopen' : ¬ s.closed := fun hc => hopen ((closed_of_updates hup).mpr hc)
      rcases hopened hopen' with hold | ⟨d, hd, hch, hloose⟩
      · rcases htracked hold with hp | hpc
        · left
          have hcell := congrArg Cell.tracked hup.here
          exact hcell.mpr hp
        · simp only [Orderly, hk, hpc] at hok
          exact absurd (hok hopen') hlookup
      · refine .inr ⟨d, Locks.mem_set_of_mem_ne hk hd ?_, hch, hloose⟩
        rintro rfl
        have hholds := holds_of_loose hloose
        rw [hout] at hholds
        cases hholds
    · intro hclosed
      obtain ⟨d, hd, hch, hr⟩ := hclosing ((closed_of_updates hup).mp hclosed)
      refine ⟨d, Locks.mem_set_of_mem_ne hk hd ?_, hch, hr⟩
      rintro rfl
      rw [hkeeps] at hr
      cases hr

variable (hlocked : a.acquires ∨ a.holds) (hblocked : ¬ Calls.blocked ⟨s.node, s.calls⟩ a)
include hlocked hblocked

theorem Tidy.alone (j : Nat) (d : SubCall) (hj : s.calls[j]? = some d)
    (hlock : holdsLock d a.channel) : j = k := by
  rcases hlocked with hacq | hholds
  · exact absurd ⟨hacq, d, mem_of_getElem? hj, hlock⟩ hblocked
  · exact hs.exclusive j k d a a.channel hj hk hlock ⟨hholds, rfl⟩

theorem Tidy.advance (hok : Orderly s (.call k ok)) (h : a.step s.node ok = some (t, b)) :
    Advance s.node a t b := by
  have ha := mem_of_getElem? hk
  obtain ⟨hsession, hshape, hsub⟩ := hs.calls a ha
  have hfits : Fits (cell s.node a.session a.channel) a.op a.pc a.flag := by
    rw [hsession]
    rcases hlocked with hacq | hholds
    · apply fits_of_acquires hacq
      exact hs.free a.channel (fun d hd hlock => hblocked ⟨hacq, d, hd, hlock⟩)
    · exact hs.holders a ha hholds
  have hpat : s.node.hub.Patterned (s.node.sessionID a.session) := by
    rw [hsession]
    exact hs.patterned
  have hsub' (hop : a.op ≠ .remove) : a.subscriber.session = a.session := by
    rw [hsession]
    exact hsub hop
  cases hop : a.op with
  | add e =>
    refine advance_add hpat hshape hfits hop (hsub' (by simp [hop])) ?_ (SubCall.move_of_step h)
    intro failed hpc
    simpa [Orderly, hk, hpc] using hok
  | remove =>
    refine advance_remove hpat hshape hfits hop ?_ (SubCall.move_of_step h)
    intro j hpc
    simpa [Orderly, hk, hpc, hop] using hok
  | restore e =>
    refine advance_restore hpat hshape hfits hop (hsub' (by simp [hop])) hlocked ?_
      (SubCall.move_of_step h)
    intro hpc
    simpa [Orderly, hk, hpc] using hok

theorem Tidy.locked (hok : Orderly s (.call k ok)) (h : a.step s.node ok = some (t, b)) :
    Tidy ⟨s.session, t, s.calls.set k b⟩ := by
  have hsession := (hs.calls a (mem_of_getElem? hk)).1
  have halone := hs.alone hk hlocked hblocked
  have hcont := (SubCall.move_of_step h).continues
  obtain ⟨w, hup, hstep⟩ := hs.advance hk hlocked hblocked hok h
  rw [hsession] at hup hstep
  have hb : b ∈ s.calls.set k b := Locks.mem_set_self hk
  refine hs.move hk hcont hstep.shape hup ?_ ?_ (fun _ => hstep.fits) ?_ ?_
  · intro _
    rcases hlocked with hacq | hholds
    · exact .inr (fun d hd hlock => hblocked ⟨hacq, d, hd, hlock⟩)
    · exact .inl hholds
  · intro j d hne hj hlock
    exact absurd (halone j d hj hlock) hne
  · intro hfree
    have hout : ¬ b.holds := fun hholds => hfree b hb ⟨hholds, hcont.channel⟩
    have hledger := hstep.fits.ledger
    rw [(settled_of_not_holds hout).1, (settled_of_not_holds hout).2] at hledger
    exact hledger
  · intro hw
    constructor
    · intro hopen
      have hopen' : ¬ s.closed := fun hc => hopen ((closed_of_updates hup).mpr hc)
      have hbefore : (cell s.node s.session a.channel).subscribed →
          (cell s.node s.session a.channel).tracked ∨ loose a.op a.pc := by
        intro hv
        -- Only the call itself can have left the channel untracked.
        rcases (hs.accounted a.channel (Option.isSome_iff_ne_none.mp hv)).opened hopen' with
          htracked | ⟨d, hd, hch, hloose⟩
        · exact .inl htracked
        · obtain ⟨j, hj⟩ := mem_iff_getElem?.mp hd
          obtain rfl := halone j d hj ⟨holds_of_loose hloose, hch⟩
          rw [hk] at hj
          cases hj
          exact .inr hloose
      rcases hstep.opened hbefore hw with htracked | hloose
      · left
        rw [← hup.here] at htracked
        exact htracked
      · exact .inr ⟨b, hb, hcont.channel, hloose⟩
    · intro hclosed
      have hclosed' := (closed_of_updates hup).mp hclosed
      have hself : removes a.op a.pc ∨ (cell s.node s.session a.channel).subscribed = false →
          ∃ d ∈ s.calls.set k b, d.channel = a.channel ∧ removes d.op d.pc := by
        intro hr
        rcases hstep.closing hclosed' hw hr with hr | hpc
        · exact ⟨b, hb, hcont.channel, hr⟩
        · have hawaiting : ∃ d ∈ s.calls, awaiting d a.channel := by
            have hcond := hok
            simp only [Orderly, hk, hpc] at hcond
            exact hcond hclosed'
          obtain ⟨d, hd, hop, hch, hstart⟩ := hawaiting
          refine ⟨d, Locks.mem_set_of_mem_ne hk hd ?_, hch, by rw [hop, hstart]; rfl⟩
          rintro rfl
          cases hpc.symm.trans hstart
      cases hv : (cell s.node s.session a.channel).subscribed with
      | false => exact hself (.inr hv)
      | true =>
        obtain ⟨d, hd, hch, hr⟩ :=
          (hs.accounted a.channel (Option.isSome_iff_ne_none.mp hv)).closing hclosed'
        by_cases hda : d = a
        · exact hself (.inl (hda ▸ hr))
        · exact ⟨d, Locks.mem_set_of_mem_ne hk hd hda, hch, hr⟩

end Call

theorem Tidy.call (hs : Tidy s) (hok : Orderly s (.call k ok))
    (h : step s (.call k ok) = some s') : Tidy s' := by
  obtain ⟨r, hr, rfl⟩ := Option.map_eq_some_iff.mp h
  obtain ⟨a, t, b, hk, hblocked, hstep, rfl⟩ := Calls.step_eq_some hr
  by_cases hlocked : a.acquires ∨ a.holds
  · exact hs.locked hk hlocked hblocked hok hstep
  · obtain ⟨hfree, hout⟩ := not_or.mp hlocked
    exact hs.unlocked hk (Bool.not_eq_true _ ▸ hfree) (Bool.not_eq_true _ ▸ hout) hok hstep

theorem cell_markClosed {n : Node} {c : SessionRef} :
    cell (n.setSession c (n.sessions c).markClosed) c ch = cell n c ch := by
  simp [cell, Node.lookupSubscriber, Node.removeSub, Node.sessionID, Node.tracked,
    Session.markClosed]

theorem Tidy.close {channels : List String} (hs : Tidy s) (hok : Orderly s (.close channels))
    (h : step s (.close channels) = some s') : Tidy s' := by
  simp only [Close.step] at h
  split_ifs at h with hclosed hchannels
  cases h
  set t := s.node.setSession s.session (s.node.sessions s.session).markClosed with ht
  have hcell : ∀ x, cell t s.session x = cell s.node s.session x := fun x => cell_markClosed
  have hid : t.sessionID s.session = s.node.sessionID s.session := by
    simp [ht, Node.sessionID, Session.markClosed]
  have hclosing : Tidy ⟨s.session, s.node, s.calls ++ channels.map (SubCall.remove s.session)⟩ :=
    hs.spawn (forall_mem_map.mpr fun x _ => ⟨rfl, rfl, fun _ => rfl⟩)
      (forall_mem_map.mpr fun x _ => rfl)
  refine ⟨hclosing.calls, ?_, hclosing.exclusive, ?_, hclosing.free, ?_⟩
  · show s.node.hub.Patterned (t.sessionID s.session)
    rw [hid]
    exact hs.patterned
  · intro a ha hholds
    rw [hcell]
    exact hclosing.holders a ha hholds
  · intro x hlookup
    have hclosed' : (t.sessions s.session).state = .closed := by simp [ht, Session.markClosed]
    refine ⟨fun hopen => absurd hclosed' hopen, fun _ => ?_⟩
    have hold : s.lookupSubscriber x ≠ none := by
      apply Option.isSome_iff_ne_none.mp
      rw [← show _ = (s.lookupSubscriber x).isSome from congrArg Cell.subscribed (hcell x)]
      exact Option.isSome_iff_ne_none.mpr hlookup
    have hsnapshot : x ∈ s.tracked → ∃ a ∈ s.calls ++ channels.map (SubCall.remove s.session),
        a.channel = x ∧ removes a.op a.pc := by
      intro htracked
      rw [← hchannels.2, mem_toFinset] at htracked
      exact ⟨_, mem_append_right _ (mem_map_of_mem htracked), rfl, rfl⟩
    rcases (hs.accounted x hold).opened hclosed with htracked | ⟨a, ha, rfl, hloose⟩
    · exact hsnapshot htracked
    · -- A restore that is not tracked yet is one whose channel `Close` finds tracked all the same.
      cases hrestoring : restoring a with
      | true => exact hsnapshot (hok a ha hrestoring)
      | false =>
        refine ⟨a, mem_append_left _ ha, rfl, ?_⟩
        exact removes_of_loose hloose hrestoring

theorem Tidy.step {action : Action} (hs : Tidy s) (hok : Orderly s action)
    (h : Close.step s action = some s') : Tidy s' := by
  cases action with
  | add x e =>
    cases h
    exact hs.spawn (by simp [SubCall.add, wellFormed, newSubscriber])
      (by simp [SubCall.add, SubCall.holds])
  | restore x e =>
    cases h
    exact hs.spawn (by simp [SubCall.restore, wellFormed, newSubscriber])
      (by simp [SubCall.restore, SubCall.holds])
  | close channels => exact hs.close hok h
  | call k ok => exact hs.call hok h

theorem Tidy.clean (hs : Tidy s) (hfinished : Finished s) : Clean s := by
  have hdone : ∀ a ∈ s.calls, removes a.op a.pc = false ∧ a.holds = false := by
    intro a ha
    have hreturned := hfinished.2 a ha
    obtain ⟨op, c, x, sub, flag, pc⟩ := a
    cases pc with
    | returned r => cases op <;> exact ⟨rfl, rfl⟩
    | _ => cases hreturned
  constructor
  · intro x
    by_contra hlookup
    obtain ⟨a, ha, -, hr⟩ := (hs.accounted x hlookup).closing hfinished.1
    rw [(hdone a ha).1] at hr
    cases hr
  · intro x
    apply hs.free x
    intro a ha hlock
    rw [holdsLock, (hdone a ha).2] at hlock
    cases hlock.1

theorem close_clean {as : List Action} (hs : Consistent s) (hrun : run s as = some s')
    (horderly : Transition.Along Close.step Orderly s as) (hfinished : Finished s') : Clean s' := by
  have htidy : Tidy s' :=
    Transition.invariant_along (tidy_start hs) (fun _ _ _ ht hok h => ht.step hok h) hrun horderly
  exact htidy.clean hfinished

def openSession : State where
  session := 0
  node := .new true fun _ => { Session.newClient "s1" ⟨0, 0, .protobuf⟩ with state := .attached }
  calls := []

theorem consistent_openSession : Consistent openSession := by
  refine ⟨by decide, rfl, ?_, ?_, ?_⟩
  · intro x hlookup
    exact absurd (Hub.lookupSubscriber_empty x "s1") hlookup
  · nofun
  · intro x
    unfold Hub.wants
    split_ifs with hw hempty
    · rfl
    · rfl
    · exact absurd rfl hempty

/-- The subscription call of "b" has its record in the hub when the session closes; it takes it
back, and `Close` removes "a". -/
def overlappingClose : List Action :=
  .add "a" false :: List.replicate 6 (.call 0 true) ++
    [.add "b" true, .call 1 true, .call 1 true, .close ["a"], .call 2 true, .call 1 true] ++
    List.replicate 5 (.call 2 true) ++ [.call 1 true]

theorem close_clean_overlapping :
    ∃ s, run openSession overlappingClose = some s ∧ Finished s ∧ Clean s :=
  ⟨_, rfl, by decide, close_clean consistent_openSession
    (rfl : run openSession overlappingClose = _) (by decide) (by decide)⟩

/-- `Close` is fenced at the snapshot of its removal, whose rollback puts the subscription and the
broker interest back. -/
theorem close_leaves_subscription :
    Consistent openSession ∧
      ∃ s, run openSession (.add "room" false :: List.replicate 6 (.call 0 true) ++
          .close ["room"] :: List.replicate 4 (.call 1 true) ++ .call 1 false ::
          List.replicate 3 (.call 1 true)) = some s ∧
        Finished s ∧ s.lookupSubscriber "room" ≠ none ∧ s.node.interest "room" = 1 ∧ ¬ Clean s := by
  refine ⟨consistent_openSession, _, rfl, by decide, by decide, by decide, ?_⟩
  intro hclean
  exact absurd (hclean.subscriptions "room") (by decide)

end Runs

end MessageLoop.Close
