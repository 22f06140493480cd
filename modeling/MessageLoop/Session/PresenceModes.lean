import MessageLoop.Session.PresenceSpots

/-!
The presence entry of a session in one channel whose members are tracked. As long as the session is
open, the entry follows the record; once it is closed, the entry goes with the `Close` of the
channel, or has gone before it.
-/

namespace MessageLoop.PresenceStore

open Locks List

variable {track : Bool → Bool} {u u' : Seat} {p q d : Spot} {ps ps' qs : List Spot} {k : Nat}

def Departs (u : Seat) : Spot → Prop
  | .looking already => already = u.record.isSome ∧ (u.present = true ↔ u.record = some false)
  | .leaving already ephemeral p =>
    match p with
    | .before | .locked =>
      already = u.record.isSome ∧ (∀ b, u.record = some b → ephemeral = b) ∧
        (u.present = true ↔ u.record = some false)
    | .half | .whole | .ok =>
      u.record = none ∧ (u.present = true ↔ already = true ∧ ephemeral = false)
    | _ => False
  | .leave => u.record = none
  | _ => True

section Departures

theorem departs_of_not_removing (h : ¬ d.removing) : Departs u d := by
  cases d <;> first | trivial | exact absurd trivial h

theorem Turn.departs (h : Turn track u p u' q) (hp : Departs u p) (hknows : Knows u p)
    (halone : ¬ p.underway → q.removing → Synced u ∧ (u.present = true ↔ u.record = some false)) :
    Departs u' q := by
  cases h with
  | look =>
    obtain ⟨hsynced, hpresent⟩ := halone id trivial
    refine ⟨?_, hpresent⟩
    rw [Bool.eq_iff_iff, hsynced.eq, Option.isSome_iff_ne_none]
  | command =>
    obtain ⟨-, hpresent⟩ := halone id trivial
    refine ⟨rfl, ?_, hpresent⟩
    intro b hb
    rw [Seat.stored, hb]
    rfl
  | looked =>
    refine ⟨hp.1, ?_, hp.2⟩
    intro b hb
    rw [Seat.stored, hb]
    rfl
  | remove h =>
    cases h with
    | missing hnone =>
      obtain ⟨halready, -, hpresent⟩ := hp
      rw [hnone] at halready hpresent
      refine ⟨hnone, ?_⟩
      rw [hpresent, halready]
      simp
    | lock hsome => exact hp
    | unlink =>
      obtain ⟨halready, hephemeral, hpresent⟩ := hp
      refine ⟨rfl, ?_⟩
      obtain ⟨b, hb⟩ := Option.ne_none_iff_exists'.mp hknows
      rw [hb] at halready hpresent
      rw [hephemeral b hb, halready]
      simpa using hpresent
    | untrack | go | finish => exact hp
  | depart _ => exact hp.1
  | stop _ hq | add hq | undone hq => rcases hq with rfl | rfl <;> trivial
  | _ => trivial

theorem Departs.absent (h : Departs u d) (hd : d.removing) (hcloses : ¬ d.closes)
    (hrecord : u.record = some true) : u.present = false := by
  rw [← Bool.not_eq_true]
  cases d with
  | looking already => simp [h.2, hrecord]
  | leaving already ephemeral p =>
    cases p with
    | before | locked => simp [h.2.2, hrecord]
    | half | whole | ok => simp [Departs, hrecord] at h
    | back | failed | elsewhere => exact False.elim h
  | leave => simp [Departs, hrecord] at h
  | closeStore | closeCall _ => exact absurd trivial hcloses
  | _ => cases hd

theorem Turn.departed (htrack : ∀ b, track b = !b) (h : Turn track u p u' q)
    (hdeparts : Departs u p) (hcloses : ¬ p.closes) (hp : p.removing) (hq : ¬ q.removing) :
    u'.record = none ∧ u'.present = false := by
  cases h with
  | gone hleft =>
    refine ⟨hdeparts.1, ?_⟩
    rw [← Bool.not_eq_true, hdeparts.2]
    rintro ⟨rfl, rfl⟩
    rw [htrack] at hleft
    cases hleft
  | leave => exact ⟨hdeparts, rfl⟩
  | looked | remove _ | depart _ => exact absurd trivial hq
  | closeStore | closeCall _ | closed => exact absurd trivial hcloses
  | _ => cases hp

theorem Sound.departs_turn (hs : Sound u ps) (hdeparts : ∀ d ∈ ps, Departs u d)
    (halone : (∀ d ∈ ps, ¬ d.underway) →
      Synced u ∧ (u.present = true ↔ u.record = some false)) (hk : ps[k]? = some p)
    (hturn : Turn track u p u' q) (hapart : BeginsApart ps p q) :
    ∀ d ∈ ps.set k q, Departs u' d := by
  have hmem : p ∈ ps := mem_of_getElem? hk
  apply forall_mem_set_of_ne
  · apply hturn.departs (hdeparts p hmem) (hs.knows p hmem)
    intro hp hq
    exact halone fun d hd hunderway => (hapart hp d hd hunderway).1 hq
  · intro j d hjk hj
    by_cases hd : d.removing
    · rw [hs.same_beside hk hturn hj hjk hd]
      exact hdeparts d (mem_of_getElem? hj)
    · exact departs_of_not_removing hd

end Departures

section Open

/-- What the operations of an open session can rely on. A subscription that was found stays found:
nobody removes it meanwhile. -/
def OpenFits (u : Seat) : Spot → Prop
  | .joining already _ p =>
    p ≠ .back ∧ (p = .whole ∨ p = .ok → u.tracked = true) ∧
      (already = true → (p = .before ∨ p = .ok) ∧ u.record ≠ none)
  | .gate | .added | .refreshing => u.tracked = true
  | .adding => u.tracked = true ∧ u.record = some false
  | .undoing _ | .takeOut | .closing | .closeStore | .closeCall _ => False
  | _ => True

structure Open (u : Seat) (ps : List Spot) : Prop where
  opened : u.closed = false
  fits : ∀ p ∈ ps, OpenFits u p
  departs : ∀ p ∈ ps, Departs u p
  present : (∀ p ∈ ps, ¬ p.removing) → u.present = true → u.record = some false ∧ u.tracked = true
  joined : (∀ p ∈ ps, ¬ p.removing) → u.record = some false →
    u.present = true ∨ ∃ p ∈ ps, p.responsible

structure Grows (u u' : Seat) : Prop where
  tracked : u.tracked = true → u'.tracked = true
  record : ∀ b, u.record = some b → u'.record = some b

theorem Grows.record_ne_none (h : Grows u u') (hsome : u.record ≠ none) : u'.record ≠ none := by
  obtain ⟨b, hb⟩ := Option.ne_none_iff_exists'.mp hsome
  rw [h.record b hb]
  exact Option.some_ne_none b

theorem grows_refl : Grows u u := ⟨id, fun _ => id⟩

theorem Turn.grows (h : Turn track u p u' q) (hp : ¬ p.removing) (hfits : OpenFits u p)
    (hknows : Knows u p) : Grows u u' := by
  cases h with
  | join h =>
    cases h with
    | record =>
      refine ⟨id, ?_⟩
      intro b hb
      rw [hknows.1] at hb
      cases hb
    | track _ => exact ⟨fun _ => rfl, fun _ => id⟩
    | takeBack => exact absurd rfl hfits.1
    | _ => exact grows_refl
  | undo _ | takeOut => exact False.elim hfits
  | remove _ | leave | closeStore | closeCall _ => exact absurd trivial hp
  | _ => exact ⟨id, fun _ => id⟩

theorem OpenFits.grow (h : OpenFits u d) (hgrows : Grows u u') : OpenFits u' d := by
  cases d with
  | joining already ephemeral p =>
    exact ⟨h.1, fun hp => hgrows.tracked (h.2.1 hp),
      fun halready => ⟨(h.2.2 halready).1, hgrows.record_ne_none (h.2.2 halready).2⟩⟩
  | gate | added | refreshing => exact hgrows.tracked h
  | adding => exact ⟨hgrows.tracked h.1, hgrows.record false h.2⟩
  | _ => exact h

theorem OpenFits.of_not_underway (h : OpenFits u d) (hd : ¬ d.underway) : OpenFits u' d := by
  cases d with
  | idle => trivial
  | closing => exact h
  | _ => exact absurd trivial hd

theorem Turn.openFits (htrack : ∀ b, track b = !b) (h : Turn track u p u' q) (hfits : OpenFits u p)
    (hopen : u.closed = false) (hsynced : p.phase = .before → Synced u)
    (hlinked : ¬ p.removing → ¬ q.removing → u.tracked = true → u.record ≠ none) :
    OpenFits u' q := by
  have hfalse : u.tracked = true → (u.tracked = true → u.record ≠ none) → track u.stored = true →
      u.record = some false := by
    intro htracked hsome hpass
    obtain ⟨b, hb⟩ := Option.ne_none_iff_exists'.mp (hsome htracked)
    rw [htrack, Seat.stored, hb] at hpass
    cases b with
    | false => exact hb
    | true => cases hpass
  have hkept : ¬ u.closed = true := by
    rw [hopen]
    exact Bool.false_ne_true
  cases h with
  | @subscribe already ephemeral hread =>
    refine ⟨nofun, (fun hp => by rcases hp with hp | hp <;> cases hp), ?_⟩
    intro halready
    refine ⟨.inl rfl, ?_⟩
    rcases hread with hread | hread
    · exact hlinked id id (hread.symm.trans halready)
    · exact Option.isSome_iff_ne_none.mp (hread.symm.trans halready)
  | join h =>
    obtain ⟨-, htracked, halready⟩ := hfits
    cases h with
    | found hsome =>
      exact ⟨nofun, (fun _ => (hsynced rfl).mpr hsome),
        fun ha => ⟨.inr rfl, (halready ha).2⟩⟩
    | lock hnone =>
      exact ⟨nofun, (fun hp => by rcases hp with hp | hp <;> cases hp),
        fun ha => absurd hnone (halready ha).2⟩
    | record | refuse | takeBack =>
      exact ⟨nofun, (fun hp => by rcases hp with hp | hp <;> cases hp),
        fun ha => by rcases (halready ha).1 with hp | hp <;> cases hp⟩
    | track _ =>
      exact ⟨nofun, (fun _ => rfl),
        fun ha => by rcases (halready ha).1 with hp | hp <;> cases hp⟩
    | turn hclosed => exact absurd hclosed hkept
    | go | finish =>
      exact ⟨nofun, (fun _ => htracked (.inl rfl)),
        fun ha => by rcases (halready ha).1 with hp | hp <;> cases hp⟩
  | enter _ | skip _ => exact hfits.2.1 (.inr rfl)
  | pass hpass | refresh hpass => exact ⟨hfits, hfalse hfits (hlinked id id) hpass⟩
  | stop _ hq | add hq =>
    rcases hq with rfl | rfl
    · first | exact hfits | exact hfits.1
    · trivial
  | fail hclosed => exact absurd hclosed hkept
  | undo _ | undone _ | takeOut | close _ | unstored _ | closeStore | closeCall _ | closed =>
    exact False.elim hfits
  | _ => trivial

namespace Open

theorem not_closes (h : Open u ps) (hd : d ∈ ps) : ¬ d.closes := by
  intro hcloses
  have hfits := h.fits d hd
  cases d with
  | closing | closeStore | closeCall _ => exact hfits
  | _ => cases hcloses

theorem record_of_tracked (hs : Sound u ps) (h : Open u ps) (hno : ∀ d ∈ ps, ¬ d.removing)
    (htracked : u.tracked = true) : u.record ≠ none := by
  apply (hs.synced ?_).mp htracked
  intro d hd hhalf
  have hknows := hs.knows d hd
  have hfits := h.fits d hd
  cases d with
  | joining already ephemeral p =>
    have huntracked : u.tracked = false := by
      rcases hhalf with hp | hp <;> cases hp <;> exact hknows.2
    rw [htracked] at huntracked
    cases huntracked
  | undoing p => exact hfits
  | leaving already ephemeral p | closeCall p => exact hno _ hd trivial
  | _ => rcases hhalf with hp | hp <;> cases hp

theorem alone (hs : Sound u ps) (h : Open u ps) (hidle : ∀ d ∈ ps, ¬ d.underway) :
    Synced u ∧ (u.present = true ↔ u.record = some false) := by
  have hno : ∀ d ∈ ps, ¬ d.removing := fun d hd hremoving => hidle d hd hremoving.underway
  refine ⟨hs.synced fun d hd hhalf => hidle d hd hhalf.underway, ?_⟩
  constructor
  · intro hpresent
    exact (h.present hno hpresent).1
  · intro hrecord
    rcases h.joined hno hrecord with hpresent | ⟨d, hd, hresponsible⟩
    · exact hpresent
    · cases d with
      | joining _ _ _ | gate | adding => exact absurd trivial (hidle _ hd)
      | _ => cases hresponsible

end Open

theorem Turn.responsible (htrack : ∀ b, track b = !b) (h : Turn track u p u' q)
    (hopen : u.closed = false) (hrecord : u.record = some false) (hp : p.responsible) :
    q.responsible ∨ u'.present = true := by
  have hpass : track u.stored = true := by
    rw [htrack, Seat.stored, hrecord]
    rfl
  cases h with
  | join h =>
    obtain ⟨halready, hephemeral, hphase⟩ := hp
    cases h with
    | track _ | go => exact .inl ⟨halready, hephemeral, .inr (.inl rfl)⟩
    | turn hclosed =>
      rw [hopen] at hclosed
      cases hclosed
    | finish => exact .inl ⟨halready, hephemeral, .inr (.inr rfl)⟩
    | found _ | lock _ | record | refuse | takeBack =>
      rcases hphase with hphase | hphase | hphase <;> cases hphase
  | enter _ | pass _ => exact .inl trivial
  | skip hskip =>
    obtain ⟨-, rfl, -⟩ := hp
    rw [htrack] at hskip
    cases hskip
  | again => cases hp.1
  | refused => rcases hp.2.2 with hphase | hphase | hphase <;> cases hphase
  | stop hstop _ =>
    rw [hpass] at hstop
    cases hstop
  | add _ => exact .inr rfl
  | _ => cases hp

namespace Open

theorem turn (htrack : ∀ b, track b = !b) (hs : Sound u ps) (h : Open u ps) (hk : ps[k]? = some p)
    (hturn : Turn track u p u' q) (hfree : p.phase = .before → ∀ d ∈ ps, ¬ d.holds)
    (hapart : BeginsApart ps p q) : Open u' (ps.set k q) := by
  have hmem : p ∈ ps := mem_of_getElem? hk
  have hset : q ∈ ps.set k q := mem_set_self hk
  have hcloses : ¬ p.closes := h.not_closes hmem
  have hgrows : ¬ p.removing → Grows u u' :=
    fun hp => hturn.grows hp (h.fits p hmem) (hs.knows p hmem)
  have hkept : ¬ p.removing → u.present = true → u'.present = true := by
    intro hp hpresent
    rcases hturn.present_or with hsame | ⟨-, rfl⟩ | ⟨rfl | hremoving, -⟩
    · exact hsame.trans hpresent
    · rfl
    · exact False.elim (h.fits _ hmem)
    · exact absurd hremoving hp
  refine ⟨hturn.closed_eq.trans h.opened, ?_, ?_, ?_, ?_⟩
  · apply forall_mem_set_of_ne
    · apply hturn.openFits htrack (h.fits p hmem) h.opened
      · exact fun hbefore => hs.synced_of_free (hfree hbefore)
      · exact fun hp _ => record_of_tracked hs h (hs.no_removing hk hp hapart)
    · intro j d hjk hj
      have hfits := h.fits d (mem_of_getElem? hj)
      by_cases hp : p.removing
      · exact hfits.of_not_underway (hs.not_underway hk hp hj hjk)
      · exact hfits.grow (hgrows hp)
  · exact hs.departs_turn h.departs (alone hs h) hk hturn hapart
  · intro hno hpresent
    by_cases hp : p.removing
    · have hgone := hturn.departed htrack (h.departs p hmem) hcloses hp (hno q hset)
      rw [hgone.2] at hpresent
      cases hpresent
    · have hold := hs.no_removing hk hp hapart
      rcases hturn.present_or with hsame | ⟨rfl, rfl⟩ | ⟨-, hfalse⟩
      · obtain ⟨hrecord, htracked⟩ := h.present hold (hsame.symm.trans hpresent)
        exact ⟨(hgrows hp).record false hrecord, (hgrows hp).tracked htracked⟩
      · have hfits := h.fits _ hmem
        exact ⟨hfits.2, hfits.1⟩
      · rw [hfalse] at hpresent
        cases hpresent
  · intro hno hrecord
    by_cases hp : p.removing
    · have hgone := hturn.departed htrack (h.departs p hmem) hcloses hp (hno q hset)
      rw [hgone.1] at hrecord
      cases hrecord
    · rcases hturn.record_or hrecord with hold | ⟨already, rfl, rfl⟩
      · rcases h.joined (hs.no_removing hk hp hapart) hold with hpresent | ⟨d, hd, hresponsible⟩
        · exact .inl (hkept hp hpresent)
        · exact (exists_mem_set_or hk (hturn.responsible htrack h.opened hold)
            ⟨d, hd, hresponsible⟩).symm
      · refine .inr ⟨_, hset, ?_, rfl, .inl rfl⟩
        rw [← Bool.not_eq_true]
        intro halready
        rcases ((h.fits _ hmem).2.2 halready).1 with hphase | hphase <;> cases hphase

theorem come (h : Open u ps)
    (hnew : ∀ d ∈ qs, d = .idle ∨ d = .refreshing ∧ u.tracked = true ∧ ∀ a ∈ ps, ¬ a.removing) :
    Open u (ps ++ qs) where
  opened := h.opened
  fits := by
    refine forall_mem_append.mpr ⟨h.fits, fun d hd => ?_⟩
    rcases hnew d hd with rfl | ⟨rfl, htracked, -⟩
    · trivial
    · exact htracked
  departs := by
    refine forall_mem_append.mpr ⟨h.departs, fun d hd => ?_⟩
    rcases hnew d hd with rfl | ⟨rfl, -⟩ <;> trivial
  present := fun hno => h.present fun d hd => hno d (mem_append_left qs hd)
  joined := by
    intro hno hrecord
    rcases h.joined (fun d hd => hno d (mem_append_left qs hd)) hrecord with
      hpresent | ⟨d, hd, hresponsible⟩
    · exact .inl hpresent
    · exact .inr ⟨d, mem_append_left qs hd, hresponsible⟩

end Open

end Open

section Closed

def CloseFits (u : Seat) : Spot → Prop
  | .closeCall p => u.present = false ∧ (p = .ok → u.record = none)
  | _ => True

/-- The session is closed, and `Close` has not done with the channel. It passes over the entry only
if the record is ephemeral; then there is none, apart from records that are about to be taken
back. -/
structure Pending (u : Seat) (ps : List Spot) : Prop where
  closed : u.closed = true
  close : ∃ p ∈ ps, p.closes
  passed : u.record = some true → (∀ p ∈ ps, ¬ p.loose) → u.present = false ∧ Spot.adding ∉ ps
  calls : ∀ p ∈ ps, CloseFits u p

def EndedFits : Spot → Prop
  | .joining _ _ p => p ≠ .whole ∧ p ≠ .ok
  | .idle | .looking _ | .leaving _ _ _ | .leave => True
  | _ => False

structure Ended (u : Seat) (ps : List Spot) : Prop where
  closed : u.closed = true
  untracked : u.tracked = false
  fits : ∀ p ∈ ps, EndedFits p
  departs : ∀ p ∈ ps, Departs u p
  loose : u.record ≠ none → ∃ p ∈ ps, p.loose
  absent : (∀ p ∈ ps, ¬ p.removing) → u.present = false

theorem Turn.loose_or (h : Turn track u p u' q) (hclosed : u.closed = true) (hp : p.loose) :
    q.loose ∨ u'.record = none := by
  cases h with
  | join h =>
    cases h with
    | track hopen =>
      rw [hclosed] at hopen
      cases hopen
    | turn _ => exact .inl (.inr rfl)
    | takeBack => exact .inr rfl
    | _ => rcases hp with hp | hp <;> cases hp
  | again | enter _ | skip _ | refused => rcases hp with hp | hp <;> cases hp
  | _ => cases hp

theorem Turn.closeFits (htrack : ∀ b, track b = !b) (h : Turn track u p u' q) (hp : CloseFits u p)
    (hknows : Knows u p)
    (halone : ¬ p.underway → q.removing → u.record = some true → u.present = false) :
    CloseFits u' q := by
  cases h with
  | unstored hstored =>
    refine ⟨?_, nofun⟩
    apply halone id trivial
    rw [htrack, Seat.stored] at hstored
    cases hrecord : u.record with
    | none =>
      rw [hrecord] at hstored
      cases hstored
    | some b =>
      rw [hrecord] at hstored
      cases b with
      | false => cases hstored
      | true => rfl
  | closeStore => exact ⟨rfl, nofun⟩
  | closeCall h =>
    cases h with
    | missing hnone => exact ⟨hp.1, fun _ => hnone⟩
    | finish => exact ⟨hp.1, fun _ => hknows.1⟩
    | lock _ | unlink | untrack | go => exact ⟨hp.1, nofun⟩
  | stop _ hq | add hq | undone hq => rcases hq with rfl | rfl <;> trivial
  | _ => trivial

namespace Pending

theorem finish (hs : Sound u ps) (h : Pending u ps) (hk : ps[k]? = some (.closeCall .ok)) :
    Ended u (ps.set k .idle) := by
  have hidle : ∀ d ∈ ps.set k .idle, d = .idle := by
    apply forall_mem_set_of_ne
    · rfl
    · intro j d hjk hj
      have hunderway := hs.not_underway hk trivial hj hjk
      cases d with
      | idle => rfl
      | closing => exact absurd (hs.sole j k _ _ hj hk trivial trivial) hjk
      | _ => exact absurd trivial hunderway
  obtain ⟨habsent, hrecord⟩ := h.calls _ (mem_of_getElem? hk)
  have hsynced : Synced u := by
    apply hs.synced
    intro d hd hhalf
    obtain ⟨j, hj⟩ := mem_iff_getElem?.mp hd
    by_cases hjk : j = k
    · subst hjk
      cases hk.symm.trans hj
      rcases hhalf with hhalf | hhalf <;> cases hhalf
    · exact hs.not_underway hk trivial hj hjk hhalf.underway
  refine ⟨h.closed, ?_, ?_, ?_, ?_, fun _ => habsent⟩
  · rw [← Bool.not_eq_true]
    exact fun htracked => hsynced.mp htracked (hrecord rfl)
  · intro d hd
    rw [hidle d hd]
    trivial
  · intro d hd
    rw [hidle d hd]
    trivial
  · exact fun hsome => absurd (hrecord rfl) hsome

theorem passed_before (h : Pending u ps) (hk : ps[k]? = some p) (hturn : Turn track u p u' q)
    (hrecord : u'.record = some true) (hloose : ∀ d ∈ ps.set k q, ¬ d.loose) :
    u.record = some true ∧ u.present = false ∧ Spot.adding ∉ ps := by
  have hset : q ∈ ps.set k q := mem_set_self hk
  rcases hturn.record_or hrecord with hold | ⟨already, -, rfl⟩
  · refine ⟨hold, h.passed hold ?_⟩
    intro d hd hd'
    rcases exists_mem_set_or hk (hturn.loose_or h.closed) ⟨d, hd, hd'⟩ with
      ⟨d', hmem, hstill⟩ | hnone
    · exact hloose d' hmem hstill
    · rw [hrecord] at hnone
      cases hnone
  · exact absurd (.inl rfl) (hloose _ hset)

theorem proceed (htrack : ∀ b, track b = !b) (hs : Sound u ps) (h : Pending u ps)
    (hk : ps[k]? = some p) (hturn : Turn track u p u' q) (hapart : BeginsApart ps p q)
    (hcloses : p.closes → q.closes) : Pending u' (ps.set k q) := by
  have hmem : p ∈ ps := mem_of_getElem? hk
  refine ⟨hturn.closed_eq.trans h.closed, exists_mem_set hk hcloses h.close, ?_, ?_⟩
  · intro hrecord hloose
    obtain ⟨hold, habsent, hadding⟩ := h.passed_before hk hturn hrecord hloose
    have hstored : track u.stored = false := by
      rw [htrack, Seat.stored, hold]
      rfl
    constructor
    · rcases hturn.present_or with hsame | ⟨rfl, -⟩ | ⟨-, hfalse⟩
      · exact hsame.trans habsent
      · exact absurd hmem hadding
      · exact hfalse
    · intro hadded
      obtain ⟨j, hj⟩ := mem_iff_getElem?.mp hadded
      rcases getElem?_set_cases hj with ⟨-, rfl⟩ | ⟨-, hj⟩
      · cases hturn with
        | pass hpass | refresh hpass =>
          rw [hstored] at hpass
          cases hpass
        | stop _ hq | add hq | undone hq => rcases hq with hq | hq <;> cases hq
      · exact hadding (mem_of_getElem? hj)
  · apply forall_mem_set_of_ne
    · apply hturn.closeFits htrack (h.calls p hmem) (hs.knows p hmem)
      intro hp hq hrecord
      apply (h.passed hrecord _).1
      intro d hd hloose
      exact (hapart hp d hd hloose.half.underway).1 hq
    · intro j d hjk hj
      by_cases hd : d.removing
      · rw [hs.same_beside hk hturn hj hjk hd]
        exact h.calls d (mem_of_getElem? hj)
      · cases d with
        | closeCall _ => exact absurd trivial hd
        | _ => trivial

theorem turn (htrack : ∀ b, track b = !b) (hs : Sound u ps) (h : Pending u ps)
    (hk : ps[k]? = some p) (hturn : Turn track u p u' q) (hapart : BeginsApart ps p q) :
    Pending u' (ps.set k q) ∨ Ended u' (ps.set k q) := by
  by_cases hcloses : p.closes → q.closes
  · exact .inl (h.proceed htrack hs hk hturn hapart hcloses)
  · obtain ⟨hp, hq⟩ := Classical.not_imp.mp hcloses
    cases hturn with
    | closed => exact .inr (h.finish hs hk)
    | close _ | unstored _ | closeStore | closeCall _ => exact absurd trivial hq
    | _ => cases hp

theorem come (h : Pending u ps) (hnew : ∀ d ∈ qs, d = .idle ∨ d = .refreshing) :
    Pending u (ps ++ qs) where
  closed := h.closed
  close := by
    obtain ⟨d, hd, hcloses⟩ := h.close
    exact ⟨d, mem_append_left qs hd, hcloses⟩
  passed := by
    intro hrecord hloose
    obtain ⟨habsent, hadding⟩ := h.passed hrecord fun d hd => hloose d (mem_append_left qs hd)
    refine ⟨habsent, ?_⟩
    intro hadded
    rcases mem_append.mp hadded with hd | hd
    · exact hadding hd
    · rcases hnew _ hd with heq | heq <;> cases heq
  calls := by
    refine forall_mem_append.mpr ⟨h.calls, fun d hd => ?_⟩
    rcases hnew d hd with rfl | rfl <;> trivial

end Pending

namespace Ended

theorem alone (hs : Sound u ps) (h : Ended u ps) (hidle : ∀ d ∈ ps, ¬ d.underway) :
    Synced u ∧ (u.present = true ↔ u.record = some false) := by
  have hrecord : u.record = none := by
    by_contra hsome
    obtain ⟨d, hd, hloose⟩ := h.loose hsome
    exact hidle d hd hloose.half.underway
  refine ⟨hs.synced fun d hd hhalf => hidle d hd hhalf.underway, ?_⟩
  rw [h.absent fun d hd hremoving => hidle d hd hremoving.underway, hrecord]
  simp

theorem fits_turn (h : Ended u ps) (hk : ps[k]? = some p) (hturn : Turn track u p u' q)
    (hfree : p.phase = .before → ∀ d ∈ ps, ¬ d.holds) :
    EndedFits q := by
  have hfits := h.fits p (mem_of_getElem? hk)
  cases hturn with
  | subscribe _ => exact ⟨nofun, nofun⟩
  | join hadds =>
    cases hadds with
    | found hsome =>
      obtain ⟨d, hd, hloose⟩ := h.loose hsome
      exact absurd hloose.half.holds (hfree rfl d hd)
    | track hopen =>
      rw [h.closed] at hopen
      cases hopen
    | go | finish => exact absurd rfl hfits.1
    | lock _ | record | refuse | turn _ | takeBack =>
      exact ⟨nofun, nofun⟩
  | enter _ | skip _ => exact absurd rfl hfits.2
  | again | refused | look | command | looked | remove _ | depart _ | gone _ | leave => trivial
  | _ => exact False.elim hfits

theorem turn (htrack : ∀ b, track b = !b) (hs : Sound u ps) (h : Ended u ps) (hk : ps[k]? = some p)
    (hturn : Turn track u p u' q) (hfree : p.phase = .before → ∀ d ∈ ps, ¬ d.holds)
    (hapart : BeginsApart ps p q) : Ended u' (ps.set k q) := by
  have hmem : p ∈ ps := mem_of_getElem? hk
  have hset : q ∈ ps.set k q := mem_set_self hk
  have hfits := h.fits p hmem
  refine ⟨hturn.closed_eq.trans h.closed, ?_, ?_, ?_, ?_, ?_⟩
  · cases hturn with
    | join hadds =>
      cases hadds with
      | track hopen =>
        rw [h.closed] at hopen
        cases hopen
      | _ => exact h.untracked
    | undo hremoves | remove hremoves | closeCall hremoves =>
      cases hremoves <;> first | rfl | exact h.untracked
    | _ => exact h.untracked
  · apply forall_mem_set_of_ne
    · exact h.fits_turn hk hturn hfree
    · exact fun j d _ hj => h.fits d (mem_of_getElem? hj)
  · exact hs.departs_turn h.departs (alone hs h) hk hturn hapart
  · intro hsome
    obtain ⟨b, hb⟩ := Option.ne_none_iff_exists'.mp hsome
    rcases hturn.record_or hb with hold | ⟨already, -, rfl⟩
    · have hloose := h.loose (by simp [hold])
      exact (exists_mem_set_or hk (hturn.loose_or h.closed) hloose).resolve_right hsome
    · exact ⟨_, hset, .inl rfl⟩
  · intro hno
    by_cases hp : p.removing
    · refine (hturn.departed htrack (h.departs p hmem) ?_ hp (hno q hset)).2
      intro hcloses
      cases p with
      | closing | closeStore | closeCall _ => exact hfits
      | _ => cases hcloses
    · rcases hturn.present_or with hsame | ⟨rfl, -⟩ | ⟨-, hfalse⟩
      · exact hsame.trans (h.absent (hs.no_removing hk hp hapart))
      · exact False.elim hfits
      · exact hfalse

theorem come (h : Ended u ps)
    (hnew : ∀ d ∈ qs, d = .idle ∨ d = .refreshing ∧ u.tracked = true ∧ ∀ a ∈ ps, ¬ a.removing) :
    Ended u (ps ++ qs) := by
  have hidle : ∀ d ∈ qs, d = .idle := by
    intro d hd
    rcases hnew d hd with heq | ⟨-, htracked, -⟩
    · exact heq
    · rw [h.untracked] at htracked
      cases htracked
  refine ⟨h.closed, h.untracked, ?_, ?_, ?_, ?_⟩
  · refine forall_mem_append.mpr ⟨h.fits, fun d hd => ?_⟩
    rw [hidle d hd]
    trivial
  · refine forall_mem_append.mpr ⟨h.departs, fun d hd => ?_⟩
    rw [hidle d hd]
    trivial
  · intro hsome
    obtain ⟨d, hd, hloose⟩ := h.loose hsome
    exact ⟨d, mem_append_left qs hd, hloose⟩
  · exact fun hno => h.absent fun d hd => hno d (mem_append_left qs hd)

end Ended

theorem Open.absent (h : Open u ps) (hrecord : u.record = some true) : u.present = false := by
  rw [← Bool.not_eq_true]
  intro hpresent
  by_cases hno : ∀ d ∈ ps, ¬ d.removing
  · have hfalse := (h.present hno hpresent).1
    rw [hrecord] at hfalse
    cases hfalse
  · push Not at hno
    obtain ⟨d, hd, hremoving⟩ := hno
    have habsent := (h.departs d hd).absent hremoving (h.not_closes hd) hrecord
    rw [habsent] at hpresent
    cases hpresent

theorem Open.closePending (h : Open u ps) (hnew : ∀ d ∈ qs, d = .idle ∨ d = .closing)
    (hclosing : Spot.closing ∈ qs) : Pending { u with closed := true } (ps ++ qs) where
  closed := rfl
  close := ⟨_, mem_append_right ps hclosing, trivial⟩
  passed := by
    intro hrecord _
    refine ⟨h.absent hrecord, ?_⟩
    intro hadding
    rcases mem_append.mp hadding with hd | hd
    · have hfalse := (h.fits _ hd).2
      rw [show u.record = some true from hrecord] at hfalse
      cases hfalse
    · rcases hnew _ hd with heq | heq <;> cases heq
  calls := by
    intro d hd
    rcases mem_append.mp hd with hd | hd
    · have hfits := h.fits d hd
      cases d with
      | closeCall _ => exact False.elim hfits
      | _ => trivial
    · rcases hnew d hd with rfl | rfl <;> trivial

theorem Open.closeEnded (hs : Sound u ps) (h : Open u ps) (huntracked : u.tracked ≠ true)
    (hnew : ∀ d ∈ qs, d = .idle) : Ended { u with closed := true } (ps ++ qs) where
  closed := rfl
  untracked := Bool.eq_false_iff.mpr huntracked
  fits := by
    intro d hd
    rcases mem_append.mp hd with hd | hd
    · have hfits := h.fits d hd
      cases d with
      | joining already ephemeral p =>
        exact ⟨fun hp => huntracked (hfits.2.1 (.inl hp)),
          fun hp => huntracked (hfits.2.1 (.inr hp))⟩
      | gate | added | refreshing => exact huntracked hfits
      | adding => exact huntracked hfits.1
      | undoing _ | takeOut | closing | closeStore | closeCall _ => exact hfits
      | idle | looking _ | leaving _ _ _ | leave => trivial
    · rw [hnew d hd]
      trivial
  departs := by
    refine forall_mem_append.mpr ⟨h.departs, fun d hd => ?_⟩
    rw [hnew d hd]
    trivial
  loose := by
    intro hsome
    -- hub and tracked set differ, so a call is between the two
    by_contra hloose
    push Not at hloose
    apply huntracked
    apply (hs.synced ?_).mpr hsome
    intro d hd hhalf
    have hknows := hs.knows d hd
    have hfits := h.fits d hd
    cases d with
    | joining already ephemeral p => exact hloose _ (mem_append_left qs hd) hhalf
    | undoing p | closeCall p => exact hfits
    | leaving already ephemeral p =>
      rcases hhalf with hp | hp <;> cases hp
      · exact hsome hknows
      · exact h.departs _ hd
    | _ => rcases hhalf with hp | hp <;> cases hp
  absent := by
    intro hno
    rw [← Bool.not_eq_true]
    intro hpresent
    exact huntracked (h.present (fun d hd => hno d (mem_append_left qs hd)) hpresent).2

theorem Open.close (hs : Sound u ps) (h : Open u ps) (hnew : ∀ d ∈ qs, d = .idle ∨ d = .closing)
    (htracked : u.tracked = true ↔ Spot.closing ∈ qs) :
    Pending { u with closed := true } (ps ++ qs) ∨ Ended { u with closed := true } (ps ++ qs) := by
  by_cases htracks : u.tracked = true
  · exact .inl (h.closePending hnew (htracked.mp htracks))
  · refine .inr (h.closeEnded hs htracks ?_)
    intro d hd
    rcases hnew d hd with heq | rfl
    · exact heq
    · exact absurd (htracked.mpr hd) htracks

end Closed

section Steps

/-- The session is open, or `Close` is about to do the channel, or has done it. -/
def Mode (u : Seat) (ps : List Spot) : Prop :=
  Open u ps ∨ Pending u ps ∨ Ended u ps

theorem Step.mode (htrack : ∀ b, track b = !b) (h : Step track u ps u' ps') (hs : Sound u ps)
    (hmode : Mode u ps) : Mode u' ps' := by
  cases h with
  | turn hk hturn hfree hapart =>
    rcases hmode with hopen | hpending | hended
    · exact .inl (hopen.turn htrack hs hk hturn hfree hapart)
    · exact .inr (hpending.turn htrack hs hk hturn hapart)
    · exact .inr (.inr (hended.turn htrack hs hk hturn hfree hapart))
  | come hnew =>
    rcases hmode with hopen | hpending | hended
    · exact .inl (hopen.come hnew)
    · exact .inr (.inl (hpending.come fun d hd => (hnew d hd).imp_right And.left))
    · exact .inr (.inr (hended.come hnew))
  | close hopened hnew _ htracked =>
    rcases hmode with hopen | hpending | hended
    · exact .inr (hopen.close hs hnew htracked)
    · exact absurd hpending.closed (by simp [hopened])
    · exact absurd hended.closed (by simp [hopened])

/-- Once nothing is underway, the entry is there if the session is open and has a record that is not
ephemeral. -/
theorem Mode.settled (hs : Sound u ps) (h : Mode u ps) (hidle : ∀ p ∈ ps, p = .idle) :
    u.present = true ↔ u.closed = false ∧ u.record = some false := by
  have hrest : ∀ p ∈ ps, ¬ p.underway := by
    intro p hp
    rw [hidle p hp]
    exact id
  rcases h with hopen | hpending | hended
  · rw [(hopen.alone hs hrest).2]
    simp [hopen.opened]
  · obtain ⟨p, hp, hcloses⟩ := hpending.close
    rw [hidle p hp] at hcloses
    cases hcloses
  · rw [hended.absent fun p hp hremoving => hrest p hp hremoving.underway]
    simp [hended.closed]

end Steps

end MessageLoop.PresenceStore
