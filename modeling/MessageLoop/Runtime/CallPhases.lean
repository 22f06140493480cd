import MessageLoop.Runtime.SessionView
import MessageLoop.Runtime.SubscriptionCalls

/-!
The calls of `AddSubscription` and `RemoveSubscription` seen from the channel they are about, as
long as broker and stores answer. Adding fails then only because of the topic or because the session
has been closed, and removing never fails.
-/

namespace MessageLoop

open SessionView

/-- One channel of a session: the flag of the hub's record, whether the session tracks the channel,
whether it is closed, and whether the presence store has it in the channel. -/
structure Seat where
  record : Option Bool
  tracked : Bool
  closed : Bool
  present : Bool
  deriving DecidableEq, Repr

def SessionView.seat (v : SessionView) (ch : String) (present : Bool) : Seat where
  record := (v.records ch).map Subscriber.ephemeral
  tracked := decide (ch ∈ v.session.subscribedChannels)
  closed := decide (v.session.state = .closed)
  present := present

/-- A missing record counts as not ephemeral. -/
def Seat.stored (u : Seat) : Bool :=
  u.record.getD false

/-- How far a call is. At `half` it has changed the hub's record but not the tracked set, at `whole`
both; at `back` it takes its record back. -/
inductive Phase where
  | before
  | locked
  | half
  | back
  | whole
  | ok
  | failed
  | elsewhere
  deriving DecidableEq, Repr

def Pc.phase : Pc → Phase
  | .start => .before
  | .commit .hub => .locked
  | .commit .client => .half
  | .commit _ => .whole
  | .rollback _ .hub => .back
  | .returned .ok => .ok
  | .returned (.failed _) => .failed
  | _ => .elsewhere

def Phase.holds : Phase → Bool
  | .locked | .half | .back | .whole => true
  | _ => false

inductive Adds (ephemeral : Bool) (u : Seat) : Phase → Seat → Phase → Prop where
  | found (h : u.record ≠ none) : Adds ephemeral u .before u .ok
  | lock (h : u.record = none) : Adds ephemeral u .before u .locked
  | record : Adds ephemeral u .locked { u with record := some ephemeral } .half
  | refuse : Adds ephemeral u .locked u .failed
  | track (h : u.closed = false) : Adds ephemeral u .half { u with tracked := true } .whole
  | turn (h : u.closed = true) : Adds ephemeral u .half u .back
  | takeBack : Adds ephemeral u .back { u with record := none } .failed
  | go : Adds ephemeral u .whole u .whole
  | finish : Adds ephemeral u .whole u .ok

inductive Removes (u : Seat) : Phase → Seat → Phase → Prop where
  | missing (h : u.record = none) : Removes u .before u .ok
  | lock (h : u.record ≠ none) : Removes u .before u .locked
  | unlink : Removes u .locked { u with record := none } .half
  | untrack : Removes u .half { u with tracked := false } .whole
  | go : Removes u .whole u .whole
  | finish : Removes u .whole u .ok

section Seats
variable {v w : SessionView} {ch x : String} {present : Bool}

def SessionView.SameBut (v w : SessionView) (ch : String) : Prop :=
  ∀ x, x ≠ ch → ∀ present, w.seat x present = v.seat x present

theorem sameBut_refl : v.SameBut v ch := fun _ _ _ => rfl

theorem seat_congr (hrecord : w.records x = v.records x)
    (htracked : x ∈ w.session.subscribedChannels ↔ x ∈ v.session.subscribedChannels)
    (hstate : w.session.state = v.session.state) : w.seat x present = v.seat x present := by
  simp only [seat, hrecord, htracked, hstate]

theorem sameBut_setRecord {r : Option Subscriber} : v.SameBut (v.setRecord ch r) ch := by
  intro x hx present
  exact seat_congr (Function.update_of_ne hx _ _) Iff.rfl rfl

theorem seat_setRecord {r : Option Subscriber} : (v.setRecord ch r).seat ch present =
    { v.seat ch present with record := r.map Subscriber.ephemeral } := by
  simp only [seat, setRecord, Function.update_self]
  rfl

theorem sameBut_forceTrackChannel :
    v.SameBut { v with session := v.session.forceTrackChannel ch } ch := by
  intro x hx present
  exact seat_congr rfl (by simp [Session.forceTrackChannel, hx]) rfl

theorem seat_forceTrackChannel :
    seat { v with session := v.session.forceTrackChannel ch } ch present =
    { v.seat ch present with tracked := true } := by
  have htracked : ch ∈ (v.session.forceTrackChannel ch).subscribedChannels :=
    Finset.mem_insert_self ch _
  simp only [seat, htracked, decide_true]
  rfl

theorem sameBut_untrackChannel :
    v.SameBut { v with session := v.session.untrackChannel ch } ch := by
  intro x hx present
  exact seat_congr rfl (by simp [Session.untrackChannel, hx]) rfl

theorem seat_untrackChannel :
    seat { v with session := v.session.untrackChannel ch } ch present =
    { v.seat ch present with tracked := false } := by
  have htracked : ch ∉ (v.session.untrackChannel ch).subscribedChannels :=
    Finset.notMem_erase ch _
  simp only [seat, htracked, decide_false]
  rfl

theorem seat_record_eq_none : (v.seat ch present).record = none ↔ v.records ch = none := by
  simp [seat]

end Seats

section Calls
variable {n t : Node} {c : SessionRef} {ch : String} {sub : Subscriber} {k : SagaStep}
variable {a b : SubCall} {flag flag' ephemeral : Bool}

/-- A step changes only the seat of its channel, and that as `R` says. -/
structure MovesSeat (R : Seat → Phase → Seat → Phase → Prop) (n t : Node) (c : SessionRef)
    (ch : String) (p q : Phase) : Prop where
  others : (n.view c).SameBut (t.view c) ch
  here : ∀ present, R ((n.view c).seat ch present) p ((t.view c).seat ch present) q

theorem movesSeat_of_view {R : Seat → Phase → Seat → Phase → Prop} {p q : Phase}
    (hview : t.view c = n.view c) (h : ∀ u, R u p u q) : MovesSeat R n t c ch p q := by
  constructor
  · rw [hview]
    exact sameBut_refl
  · intro present
    rw [hview]
    exact h _

theorem phase_committed : (SubCall.committed k).phase =
    match k with
    | .hub => .half
    | .client | .broker | .session => .whole
    | .channel => .ok := by
  cases k <;> rfl

theorem phase_committed_ne : (SubCall.committed k).phase ≠ .elsewhere := by
  rw [phase_committed]
  cases k <;> exact nofun

theorem AddCommits.movesSeat (hsub : sub.session = c)
    (hnone : k = .hub → n.lookupSubscriber ch c = none)
    (h : AddCommits n ch sub k true flag t flag') :
    MovesSeat (Adds sub.ephemeral) n t c ch (Pc.commit k).phase (SubCall.committed k).phase := by
  subst hsub
  cases h with
  | hub hadd =>
    obtain ⟨hview, -⟩ := view_addSub rfl (hnone rfl) hadd
    constructor
    · rw [hview]
      exact sameBut_setRecord
    · intro present
      rw [hview, seat_setRecord]
      exact .record
  | client hopen =>
    constructor
    · rw [view_forceTrackChannel]
      exact sameBut_forceTrackChannel
    · intro present
      rw [view_forceTrackChannel, seat_forceTrackChannel]
      exact .track (decide_eq_false hopen)
  | brokerKept | broker => exact movesSeat_of_view rfl fun _ => .go
  | session hsync => exact movesSeat_of_view (view_sync hsync) fun _ => .go
  | channel hadjust => exact movesSeat_of_view (view_adjust hadjust) fun _ => .finish

theorem RemoveCommits.movesSeat (h : RemoveCommits n ch c k true flag t flag') :
    MovesSeat Removes n t c ch (Pc.commit k).phase (SubCall.committed k).phase := by
  cases h with
  | hub hremove =>
    have hview : t.view c = (n.view c).setRecord ch none := by
      have ht : (n.removeSub ch c).2.2 = t := congrArg (fun r => r.2.2) hremove
      rw [← ht]
      exact view_removeSub
    constructor
    · rw [hview]
      exact sameBut_setRecord
    · intro present
      rw [hview, seat_setRecord]
      exact .unlink
  | client =>
    constructor
    · rw [view_untrackChannel]
      exact sameBut_untrackChannel
    · intro present
      rw [view_untrackChannel, seat_untrackChannel]
      exact .untrack
  | brokerKept | broker => exact movesSeat_of_view rfl fun _ => .go
  | session hsync => exact movesSeat_of_view (view_sync hsync) fun _ => .go
  | channel hadjust => exact movesSeat_of_view (view_adjust hadjust) fun _ => .finish

namespace SubCall

def phase (a : SubCall) : Phase := a.pc.phase

structure Adding (a : SubCall) (c : SessionRef) (ch : String) (ephemeral : Bool) : Prop where
  op : a.op = .add ephemeral
  session : a.session = c
  channel : a.channel = ch
  subscriber : a.subscriber = newSubscriber c ephemeral
  phase : a.phase ≠ .elsewhere

structure Removing (a : SubCall) (c : SessionRef) (ch : String) : Prop where
  op : a.op = .remove
  session : a.session = c
  channel : a.channel = ch
  phase : a.phase ≠ .elsewhere
  forward : a.phase ≠ .back ∧ a.phase ≠ .failed

theorem adding_add : (SubCall.add c ch ephemeral).Adding c ch ephemeral :=
  ⟨rfl, rfl, rfl, rfl, nofun⟩

theorem removing_remove : (SubCall.remove c ch).Removing c ch :=
  ⟨rfl, rfl, rfl, nofun, nofun, nofun⟩

theorem Adding.step (ha : a.Adding c ch ephemeral)
    (hnone : a.phase = .locked → n.lookupSubscriber ch c = none) (h : a.step n true = some (t, b)) :
    b.Adding c ch ephemeral ∧ MovesSeat (Adds ephemeral) n t c ch a.phase b.phase := by
  obtain ⟨hop, rfl, rfl, hsub, hphase⟩ := ha
  cases move_of_step h with
  | addFound hlookup =>
    refine ⟨⟨hop, rfl, rfl, hsub, nofun⟩, sameBut_refl, ?_⟩
    intro present
    apply Adds.found
    rw [Ne, seat_record_eq_none]
    exact fun hno => Option.some_ne_none _ (hlookup.symm.trans hno)
  | addStart hlookup =>
    refine ⟨⟨hop, rfl, rfl, hsub, nofun⟩, sameBut_refl, ?_⟩
    intro present
    exact Adds.lock (seat_record_eq_none.mpr hlookup)
  | @addCommit op c ch sub flag flag' ok k t _ hcommits =>
    have hsession : sub.session = c := congrArg Subscriber.session hsub
    have hephemeral : sub.ephemeral = ephemeral := congrArg Subscriber.ephemeral hsub
    have hlocked : k = .hub → n.lookupSubscriber ch c = none := by
      intro hk
      apply hnone
      rw [hk]
      rfl
    have hmoves := AddCommits.movesSeat hsession hlocked hcommits
    rw [hephemeral] at hmoves
    exact ⟨⟨hop, rfl, rfl, hsub, phase_committed_ne⟩, hmoves⟩
  | @commitFailed op c ch sub flag ok k err hfailed =>
    obtain rfl : op = .add ephemeral := hop
    obtain rfl : sub = newSubscriber c ephemeral := hsub
    rcases addStep_fails hfailed with rfl | ⟨rfl, hclosed⟩
    · exact ⟨⟨rfl, rfl, rfl, rfl, nofun⟩, movesSeat_of_view rfl fun _ => .refuse⟩
    · refine ⟨⟨rfl, rfl, rfl, rfl, nofun⟩, sameBut_refl, ?_⟩
      intro present
      exact Adds.turn (decide_eq_true hclosed)
  | @rollback op c ch sub flag ok failed k =>
    obtain rfl : op = .add ephemeral := hop
    obtain rfl : sub = newSubscriber c ephemeral := hsub
    cases k with
    | hub =>
      have hview : (n.removeSub ch c).2.2.view c = (n.view c).setRecord ch none := view_removeSub
      refine ⟨⟨rfl, rfl, rfl, rfl, nofun⟩, ?_, ?_⟩
      · show (n.view c).SameBut ((n.removeSub ch c).2.2.view c) ch
        rw [hview]
        exact sameBut_setRecord
      · intro present
        show Adds _ _ .back (((n.removeSub ch c).2.2.view c).seat ch present) .failed
        rw [hview, seat_setRecord]
        exact Adds.takeBack
    | client | broker | session | channel => exact absurd rfl hphase
  | removeMissing | removeStart | removeCommit | restoreFound | restoreStart => cases hop
  | _ => exact absurd rfl hphase

theorem Removing.step (ha : a.Removing c ch)
    (hsome : a.phase = .locked → n.lookupSubscriber ch c ≠ none) (h : a.step n true = some (t, b)) :
    b.Removing c ch ∧ MovesSeat Removes n t c ch a.phase b.phase := by
  obtain ⟨hop, rfl, rfl, hphase, hback, -⟩ := ha
  cases move_of_step h with
  | removeMissing hlookup =>
    refine ⟨⟨hop, rfl, rfl, nofun, nofun, nofun⟩,
      sameBut_refl, ?_⟩
    intro present
    exact Removes.missing (seat_record_eq_none.mpr hlookup)
  | removeStart hlookup =>
    refine ⟨⟨hop, rfl, rfl, nofun, nofun, nofun⟩,
      sameBut_refl, ?_⟩
    intro present
    apply Removes.lock
    rw [Ne, seat_record_eq_none]
    exact fun hno => Option.some_ne_none _ (hlookup.symm.trans hno)
  | @removeCommit c ch sub flag flag' ok k t hcommits =>
    refine ⟨⟨rfl, rfl, rfl, ?_, ?_, ?_⟩, hcommits.movesSeat⟩
    all_goals
      show (committed k).phase ≠ _
      rw [phase_committed]
      cases k <;> exact nofun
  | @commitFailed op c ch sub flag ok k err hfailed =>
    obtain rfl : op = .remove := hop
    obtain ⟨rfl, hlookup⟩ := removeStep_fails hfailed
    exact absurd hlookup (hsome rfl)
  | @rollback op c ch sub flag ok failed k =>
    cases k with
    | hub => exact absurd rfl hback
    | client | broker | session | channel => exact absurd rfl hphase
  | addFound | addStart | restoreFound | restoreStart => cases hop
  | addCommit hne => exact absurd hop hne
  | _ => exact absurd rfl hphase

end SubCall

end Calls

end MessageLoop
