import MessageLoop.Lib.Locks
import MessageLoop.Runtime.CallPhases

/-!
The operations on one channel of a session, seen without the node: where each of them stands, and
what its next step does to the seat of the session in the channel. Operations that remove the
subscription are alone on the channel while they are underway.
-/

namespace MessageLoop.PresenceStore

open Locks List

/-- Where an operation stands. From `joining` to `takeOut` the session is subscribed, and the
subscription taken back when its request fails; `adding` is also the write of a refresh. -/
inductive Spot where
  | idle
  | joining (already ephemeral : Bool) (p : Phase)
  | gate
  | adding
  | added
  | undoing (p : Phase)
  | takeOut
  | refreshing
  | looking (already : Bool)
  | leaving (already ephemeral : Bool) (p : Phase)
  | leave
  | closing
  | closeStore
  | closeCall (p : Phase)
  deriving DecidableEq, Repr

namespace Spot

def phase : Spot → Phase
  | .joining _ _ p => p
  | .undoing p => p
  | .leaving _ _ p => p
  | .closeCall p => p
  | _ => .elsewhere

def holds (p : Spot) : Prop :=
  p.phase.holds = true

def half (p : Spot) : Prop :=
  p.phase = .half ∨ p.phase = .back

def removing : Spot → Prop
  | .looking _ | .leaving _ _ _ | .leave | .closeStore | .closeCall _ => True
  | _ => False

def underway : Spot → Prop
  | .idle | .closing => False
  | _ => True

def closes : Spot → Prop
  | .closing | .closeStore | .closeCall _ => True
  | _ => False

def loose : Spot → Prop
  | .joining _ _ p => p = .half ∨ p = .back
  | _ => False

def responsible : Spot → Prop
  | .joining already ephemeral p =>
    already = false ∧ ephemeral = false ∧ (p = .half ∨ p = .whole ∨ p = .ok)
  | .gate | .adding => True
  | _ => False

end Spot

/-- The next step of an operation; `track` is `shouldTrackPresence` of the channel. -/
inductive Turn (track : Bool → Bool) (u : Seat) : Spot → Seat → Spot → Prop where
  | subscribe {already ephemeral : Bool} (h : already = u.tracked ∨ already = u.record.isSome) :
      Turn track u .idle u (.joining already ephemeral .before)
  | join {already ephemeral : Bool} {p q : Phase} {u' : Seat} (h : Adds ephemeral u p u' q) :
      Turn track u (.joining already ephemeral p) u' (.joining already ephemeral q)
  | again {ephemeral : Bool} : Turn track u (.joining true ephemeral .ok) u .idle
  | enter {ephemeral : Bool} (h : ephemeral = false ∨ track ephemeral = true) :
      Turn track u (.joining false ephemeral .ok) u .gate
  | skip {ephemeral : Bool} (h : track ephemeral = false) :
      Turn track u (.joining false ephemeral .ok) u .added
  | refused {already ephemeral : Bool} : Turn track u (.joining already ephemeral .failed) u .idle
  | pass (h : track u.stored = true) : Turn track u .gate u .adding
  | stop {q : Spot} (h : track u.stored = false) (hq : q = .added ∨ q = .idle) :
      Turn track u .gate u q
  | add {q : Spot} (hq : q = .added ∨ q = .idle) :
      Turn track u .adding { u with present := true } q
  | kept : Turn track u .added u .idle
  | fail (h : u.closed = true) : Turn track u .added u (.undoing .before)
  | undo {p q : Phase} {u' : Seat} (h : Removes u p u' q) :
      Turn track u (.undoing p) u' (.undoing q)
  | undone {q : Spot} (hq : q = .takeOut ∨ q = .idle) : Turn track u (.undoing .ok) u q
  | takeOut : Turn track u .takeOut { u with present := false } .idle
  | refresh (h : track u.stored = true) : Turn track u .refreshing u .adding
  | unrefreshed (h : track u.stored = false) : Turn track u .refreshing u .idle
  | look : Turn track u .idle u (.looking u.tracked)
  | command : Turn track u .idle u (.leaving u.record.isSome u.stored .before)
  | looked {already : Bool} : Turn track u (.looking already) u (.leaving already u.stored .before)
  | remove {already ephemeral : Bool} {p q : Phase} {u' : Seat} (h : Removes u p u' q) :
      Turn track u (.leaving already ephemeral p) u' (.leaving already ephemeral q)
  | depart {ephemeral : Bool} (h : track ephemeral = true) :
      Turn track u (.leaving true ephemeral .ok) u .leave
  | gone {already ephemeral : Bool} (h : (already && track ephemeral) = false) :
      Turn track u (.leaving already ephemeral .ok) u .idle
  | leave : Turn track u .leave { u with present := false } .idle
  | close (h : track u.stored = true) : Turn track u .closing u .closeStore
  | unstored (h : track u.stored = false) : Turn track u .closing u (.closeCall .before)
  | closeStore : Turn track u .closeStore { u with present := false } (.closeCall .before)
  | closeCall {p q : Phase} {u' : Seat} (h : Removes u p u' q) :
      Turn track u (.closeCall p) u' (.closeCall q)
  | closed : Turn track u (.closeCall .ok) u .idle

/-- The steps of the channel: one of its operations goes on, operations come, or the session is
closed. A call waits for the lock of the channel, and an operation begins when it may be underway
beside the others. -/
inductive Step (track : Bool → Bool) : Seat → List Spot → Seat → List Spot → Prop where
  | turn {u u' : Seat} {ps : List Spot} {k : Nat} {p q : Spot} (hk : ps[k]? = some p)
      (h : Turn track u p u' q) (hfree : p.phase = .before → ∀ d ∈ ps, ¬ d.holds)
      (hapart : ¬ p.underway → ∀ d ∈ ps, d.underway → ¬ q.removing ∧ ¬ d.removing) :
      Step track u ps u' (ps.set k q)
  | come {u : Seat} {ps qs : List Spot}
      (h : ∀ d ∈ qs, d = .idle ∨ d = .refreshing ∧ u.tracked = true ∧ ∀ a ∈ ps, ¬ a.removing) :
      Step track u ps u (ps ++ qs)
  | close {u : Seat} {ps qs : List Spot} (hopen : u.closed = false)
      (h : ∀ d ∈ qs, d = .idle ∨ d = .closing) (hsole : Separate Spot.closes Spot.closes qs)
      (htracked : u.tracked = true ↔ Spot.closing ∈ qs) :
      Step track u ps { u with closed := true } (ps ++ qs)

def Knows (u : Seat) : Spot → Prop
  | .joining _ ephemeral p =>
    match p with
    | .locked => u.record = none ∧ u.tracked = false
    | .half | .back => u.record = some ephemeral ∧ u.tracked = false
    | .whole => u.record = some ephemeral ∧ u.tracked = true
    | _ => True
  | .undoing p | .leaving _ _ p | .closeCall p =>
    match p with
    | .locked => u.record ≠ none
    | .half => u.record = none
    | .whole => u.record = none ∧ u.tracked = false
    | _ => True
  | _ => True

def Synced (u : Seat) : Prop :=
  u.tracked = true ↔ u.record ≠ none

section Turns
variable {track : Bool → Bool} {u u' : Seat} {p q d : Spot}

theorem Spot.removing.underway (h : p.removing) : p.underway := by
  cases p <;> trivial

theorem Spot.half.holds (h : p.half) : p.holds := by
  unfold Spot.holds
  rcases h with h | h
  · rw [h]
    rfl
  · rw [h]
    rfl

theorem Spot.half.underway (h : p.half) : p.underway := by
  cases p with
  | idle | closing => rcases h with h | h <;> cases h
  | _ => trivial

theorem Spot.loose.half (h : p.loose) : p.half := by
  cases p with
  | joining already ephemeral p => exact h
  | _ => cases h

section
variable (h : Turn track u p u' q)
include h

theorem Turn.closed_eq : u'.closed = u.closed := by
  cases h with
  | join h | undo h | remove h | closeCall h => cases h <;> rfl
  | _ => rfl

theorem Turn.same_of_not_holds (hp : ¬ p.holds) :
    u'.record = u.record ∧ u'.tracked = u.tracked := by
  cases h with
  | join h | undo h | remove h | closeCall h =>
    cases h <;> first | exact ⟨rfl, rfl⟩ | exact absurd rfl hp
  | _ => exact ⟨rfl, rfl⟩

theorem Turn.same_of_not_half (hp : ¬ p.half) (hq : ¬ q.half) :
    u'.record = u.record ∧ u'.tracked = u.tracked := by
  cases h with
  | join h =>
    cases h <;> first
      | exact ⟨rfl, rfl⟩
      | exact absurd (.inl rfl) hp
      | exact absurd (.inr rfl) hp
      | exact absurd (.inl rfl) hq
  | undo h | remove h | closeCall h =>
    cases h <;> first
      | exact ⟨rfl, rfl⟩
      | exact absurd (.inl rfl) hp
      | exact absurd (.inl rfl) hq
  | _ => exact ⟨rfl, rfl⟩

theorem Turn.same_of_not_underway (hp : ¬ p.underway) : u' = u := by
  cases h <;> first | rfl | exact absurd trivial hp

theorem Turn.holds_or (hq : q.holds) : p.holds ∨ p.phase = .before := by
  cases h with
  | join h | undo h | remove h | closeCall h =>
    cases h <;> first | exact .inl rfl | exact .inr rfl
  | stop _ hq' | add hq' | undone hq' => rcases hq' with rfl | rfl <;> cases hq
  | _ => cases hq

theorem Turn.removing_or (hq : q.removing) :
    p.removing ∨ ¬ p.underway := by
  cases h with
  | look | command | close _ | unstored _ => exact .inr id
  | looked | remove _ | depart _ | closeStore | closeCall _ => exact .inl trivial
  | stop _ hq' | add hq' | undone hq' => rcases hq' with rfl | rfl <;> cases hq
  | _ => cases hq

theorem Turn.closes_of (hq : q.closes) : p.closes := by
  cases h with
  | close _ | unstored _ | closeStore | closeCall _ => trivial
  | stop _ hq' | add hq' | undone hq' => rcases hq' with rfl | rfl <;> cases hq
  | _ => cases hq

theorem Turn.knows (hp : Knows u p) (hsynced : p.phase = .before → Synced u) : Knows u' q := by
  cases h with
  | join h =>
    cases h with
    | lock hnone =>
      refine ⟨hnone, ?_⟩
      rw [← Bool.not_eq_true]
      exact fun htracked => (hsynced rfl).mp htracked hnone
    | record => exact ⟨rfl, hp.2⟩
    | track hopen => exact ⟨hp.1, rfl⟩
    | turn hclosed | go => exact hp
    | found _ | refuse | takeBack | finish => trivial
  | undo h | remove h | closeCall h =>
    cases h with
    | lock hsome => exact hsome
    | unlink => rfl
    | untrack => exact ⟨hp, rfl⟩
    | go => exact hp
    | missing _ | finish => trivial
  | stop _ hq' | add hq' | undone hq' => rcases hq' with rfl | rfl <;> trivial
  | _ => trivial

theorem Turn.synced (hknows : Knows u p) (hp : p.half) (hq : ¬ q.half) :
    Synced u' := by
  cases h with
  | join h =>
    cases h with
    | track hopen => simp [Synced, hknows.1]
    | turn hclosed => exact absurd (.inr rfl) hq
    | takeBack => simp [Synced, hknows.2]
    | _ => rcases hp with hp | hp <;> cases hp
  | undo h | remove h | closeCall h =>
    cases h with
    | untrack => simp [Synced, show u.record = none from hknows]
    | _ => rcases hp with hp | hp <;> cases hp
  | _ => rcases hp with hp | hp <;> cases hp

theorem Turn.record_or {b : Bool} (hb : u'.record = some b) :
    u.record = some b ∨
      ∃ already, p = .joining already b .locked ∧ q = .joining already b .half := by
  cases h with
  | join h =>
    cases h with
    | record =>
      cases hb
      exact .inr ⟨_, rfl, rfl⟩
    | takeBack => cases hb
    | _ => exact .inl hb
  | undo h | remove h | closeCall h =>
    cases h with
    | unlink => cases hb
    | _ => exact .inl hb
  | _ => exact .inl hb

theorem Turn.present_or :
    u'.present = u.present ∨ (p = .adding ∧ u' = { u with present := true }) ∨
      (p = .takeOut ∨ p.removing) ∧ u'.present = false := by
  cases h with
  | join h | undo h | remove h | closeCall h => cases h <;> exact .inl rfl
  | add _ => exact .inr (.inl ⟨rfl, rfl⟩)
  | takeOut => exact .inr (.inr ⟨.inl rfl, rfl⟩)
  | leave | closeStore => exact .inr (.inr ⟨.inr trivial, rfl⟩)
  | _ => exact .inl rfl

end

theorem knows_of_not_holds (h : ¬ d.holds) : Knows u d := by
  cases d with
  | joining already ephemeral p | undoing p | leaving already ephemeral p | closeCall p =>
    cases p <;> trivial
  | _ => trivial

theorem Knows.congr (h : Knows u d) (hrecord : u'.record = u.record)
    (htracked : u'.tracked = u.tracked) : Knows u' d := by
  unfold Knows at h ⊢
  rw [hrecord, htracked]
  exact h

end Turns

/-- An operation that begins overlaps no removal, and is none that overlaps another. -/
def BeginsApart (ps : List Spot) (p q : Spot) : Prop :=
  ¬ p.underway → ∀ d ∈ ps, d.underway → ¬ q.removing ∧ ¬ d.removing

structure Sound (u : Seat) (ps : List Spot) : Prop where
  apart : Separate Spot.removing Spot.underway ps
  locked : Separate Spot.holds Spot.holds ps
  sole : Separate Spot.closes Spot.closes ps
  closed : ∀ p ∈ ps, p.closes → u.closed = true
  knows : ∀ p ∈ ps, Knows u p
  synced : (∀ p ∈ ps, ¬ p.half) → Synced u

namespace Sound

variable {track : Bool → Bool} {u u' : Seat} {p q d : Spot} {ps qs : List Spot} {k : Nat}
variable (h : Sound u ps)
include h

theorem not_underway (hk : ps[k]? = some p) (hp : p.removing) {j : Nat} (hj : ps[j]? = some d)
    (hjk : j ≠ k) : ¬ d.underway :=
  fun hd => hjk (h.apart k j p d hk hj hp hd).symm

theorem same_beside (hk : ps[k]? = some p) (hturn : Turn track u p u' q) {j : Nat}
    (hj : ps[j]? = some d) (hjk : j ≠ k) (hd : d.removing) : u' = u :=
  hturn.same_of_not_underway fun hp => hjk (h.apart j k d p hj hk hd hp)

theorem no_removing (hk : ps[k]? = some p) (hp : ¬ p.removing) (hapart : BeginsApart ps p q) :
    ∀ d ∈ ps, ¬ d.removing := by
  intro d hd hremoving
  by_cases hunderway : p.underway
  · obtain ⟨j, hj⟩ := mem_iff_getElem?.mp hd
    obtain rfl : j = k := h.apart j k d p hj hk hremoving hunderway
    cases hk.symm.trans hj
    exact hp hremoving
  · exact (hapart hunderway d hd hremoving.underway).2 hremoving

theorem synced_of_free (hfree : ∀ d ∈ ps, ¬ d.holds) : Synced u :=
  h.synced fun d hd hhalf => hfree d hd hhalf.holds

theorem turn (hk : ps[k]? = some p) (hturn : Turn track u p u' q)
    (hfree : p.phase = .before → ∀ d ∈ ps, ¬ d.holds) (hapart : BeginsApart ps p q) :
    Sound u' (ps.set k q) where
  apart := by
    apply h.apart.set hk
    · intro hq
      by_cases hp : p.underway
      · exact .inl hp
      · right
        intro j d _ hj hd
        exact (hapart hp d (mem_of_getElem? hj) hd.underway).2 hd
    · intro hq
      rcases hturn.removing_or hq with hp | hp
      · exact .inl hp
      · right
        intro j d _ hj hd
        exact (hapart hp d (mem_of_getElem? hj) hd).1 hq
  locked := by
    have htake : q.holds → p.holds ∨ ∀ (j : Nat) d, j ≠ k → ps[j]? = some d → ¬ d.holds := by
      intro hq
      rcases hturn.holds_or hq with hp | hp
      · exact .inl hp
      · exact .inr fun j d _ hj => hfree hp d (mem_of_getElem? hj)
    exact h.locked.set hk htake htake
  sole := h.sole.set hk (fun hq => .inl (hturn.closes_of hq))
    fun hq => .inl (hturn.closes_of hq)
  closed := by
    rw [hturn.closed_eq]
    apply forall_mem_set_of_ne
    · exact fun hcloses => h.closed p (mem_of_getElem? hk) (hturn.closes_of hcloses)
    · exact fun j d _ hj => h.closed d (mem_of_getElem? hj)
  knows := by
    apply forall_mem_set_of_ne
    · exact hturn.knows (h.knows p (mem_of_getElem? hk))
        fun hbefore => h.synced_of_free (hfree hbefore)
    · intro j d hjk hj
      by_cases hp : p.holds
      · exact knows_of_not_holds fun hholds => hjk (h.locked j k d p hj hk hholds hp)
      · obtain ⟨hrecord, htracked⟩ := hturn.same_of_not_holds hp
        exact (h.knows d (mem_of_getElem? hj)).congr hrecord htracked
  synced := by
    intro hall
    have hq : ¬ q.half := hall q (mem_set_self hk)
    by_cases hp : p.half
    · exact hturn.synced (h.knows p (mem_of_getElem? hk)) hp hq
    · obtain ⟨hrecord, htracked⟩ := hturn.same_of_not_half hp hq
      unfold Synced
      rw [hrecord, htracked]
      apply h.synced
      intro d hd
      obtain ⟨j, hj⟩ := mem_iff_getElem?.mp hd
      by_cases hjk : j = k
      · subst hjk
        cases hk.symm.trans hj
        exact hp
      · exact hall d (mem_set_of_ne hj hjk)

theorem append (hrecord : u'.record = u.record) (htracked : u'.tracked = u.tracked)
    (hnew : ∀ d ∈ qs, d = .idle ∨ d = .closing ∨ d = .refreshing ∧ ∀ a ∈ ps, ¬ a.removing)
    (hsole : Separate Spot.closes Spot.closes (ps ++ qs))
    (hclosed : ∀ d ∈ ps ++ qs, d.closes → u'.closed = true) : Sound u' (ps ++ qs) where
  apart := by
    apply h.apart.append_idle
    · intro d hd hremoving
      rcases hnew d hd with rfl | rfl | ⟨rfl, -⟩ <;> exact hremoving
    · intro d hd hunderway
      rcases hnew d hd with rfl | rfl | ⟨-, hfree⟩
      · cases hunderway
      · cases hunderway
      · exact hfree
  locked := by
    have hidle : ∀ d ∈ qs, ¬ d.holds := by
      intro d hd hholds
      rcases hnew d hd with rfl | rfl | ⟨rfl, -⟩ <;> cases hholds
    exact h.locked.append_idle hidle fun d hd hholds => absurd hholds (hidle d hd)
  sole := hsole
  closed := hclosed
  knows := by
    refine forall_mem_append.mpr
      ⟨fun d hd => (h.knows d hd).congr hrecord htracked, fun d hd => ?_⟩
    rcases hnew d hd with rfl | rfl | ⟨rfl, -⟩ <;> trivial
  synced := by
    intro hall
    unfold Synced
    rw [hrecord, htracked]
    exact h.synced fun d hd => hall d (mem_append_left qs hd)

theorem step {ps' : List Spot} (hstep : Step track u ps u' ps') :
    Sound u' ps' := by
  cases hstep with
  | turn hk hturn hfree hapart => exact h.turn hk hturn hfree hapart
  | @come _ qs hnew =>
    have hopen : ∀ d ∈ qs, ¬ d.closes := by
      intro d hd hcloses
      rcases hnew d hd with rfl | ⟨rfl, -⟩ <;> exact hcloses
    apply h.append rfl rfl
    · intro d hd
      rcases hnew d hd with heq | ⟨heq, -, hfree⟩
      · exact .inl heq
      · exact .inr (.inr ⟨heq, hfree⟩)
    · exact h.sole.append_idle hopen fun d hd hcloses => absurd hcloses (hopen d hd)
    · exact forall_mem_append.mpr ⟨h.closed, fun d hd hcloses => absurd hcloses (hopen d hd)⟩
  | close hopened hnew hsole _ =>
    refine h.append rfl rfl ?_ ?_ ?_
    · exact fun d hd => (hnew d hd).imp_right .inl
    · have hidle : ∀ d ∈ ps, ¬ d.closes := by
        intro d hd hcloses
        have hclosed := h.closed d hd hcloses
        rw [hopened] at hclosed
        cases hclosed
      exact h.sole.append hsole (fun _ _ _ => hidle) fun _ _ _ => hidle
    · exact fun _ _ _ => rfl

end Sound

end MessageLoop.PresenceStore
