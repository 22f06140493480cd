import MessageLoop.Redis.Stream
import MessageLoop.Stream.Broker

/-!
History of one channel in Redis (`pkg/redisbroker/redis.go`, `pkg/redisbroker/history.go`).

`Publish` runs the publish script, which appends an entry and trims the head of the stream, then
reads the first retained entry, writes its offset to the `retained:` marker and broadcasts: four
commands, between which those of other calls may run. `getHistory` compares its start offset with
the marker to find out whether the head it asks for has been trimmed. No command fails and nothing
expires.
-/

namespace MessageLoop.Redis.History

open List UInt64

open MessageLoop.Broker (HistoryGapReason defaultHistoryLimit)

/-- The next command of a `Publish` call after its script: `XINFO`, `SET` of the marker, `EXISTS`
of the marker, `PUBLISH`. -/
inductive Stage where
  | inspect (offset : UInt64)
  | mark (value : UInt64)
  | check (fallback : UInt64)
  | broadcast
  deriving DecidableEq, Repr

variable {β : Type}

/-- `lastID` is the last ID of the stream, which trimming does not take back. `trimmed` lists the
entries that have been trimmed. -/
structure State (β : Type) where
  counter : Nat
  lastID : StreamID
  stream : List (Entry β)
  trimmed : List (Entry β)
  marker : Option UInt64
  calls : List Stage
  deriving DecidableEq, Repr

def State.start : State β :=
  ⟨0, ⟨0, 0⟩, [], [], none, []⟩

def State.accepted (s : State β) : List (Entry β) :=
  s.trimmed ++ s.stream

/-- `MAXLEN` trims to exactly `maxLen` entries; `MAXLEN ~` may leave more. A history size that is
not positive has been replaced by the stream's maximum, which is. -/
def publishScript (s : State β) (content : β) (now : UInt64) (maxLen dropped : Nat)
    (approximate : Bool) : Option (State β) :=
  (nextID s.lastID now).bind fun id =>
    let entry : Entry β := ⟨id, s.counter + 1, content⟩
    let entries := s.stream ++ [entry]
    let excess := entries.length - maxLen
    if 0 < maxLen ∧ dropped ≤ excess ∧ (approximate = false → dropped = excess) then
      some { s with
        counter := s.counter + 1
        lastID := id
        stream := entries.drop dropped
        trimmed := s.trimmed ++ entries.take dropped
        calls := s.calls ++ [.inspect entry.offset] }
    else none

def command (s : State β) (k : Nat) : Option (State β) :=
  match s.calls[k]? with
  | none => none
  | some (.inspect offset) =>
    let first := (s.stream.head?.map Entry.offset).getD 0
    let next := if 0 < first then Stage.mark first else .check offset
    some { s with calls := s.calls.set k next }
  | some (.mark value) => some { s with marker := some value, calls := s.calls.set k .broadcast }
  | some (.check fallback) =>
    let next := if s.marker.isSome then Stage.broadcast else .mark fallback
    some { s with calls := s.calls.set k next }
  | some .broadcast => some { s with calls := s.calls.eraseIdx k }

inductive Action (β : Type) where
  | script (content : β) (now : UInt64) (maxLen dropped : Nat) (approximate : Bool)
  | command (k : Nat)
  deriving DecidableEq, Repr

def step (s : State β) : Action β → Option (State β)
  | .script content now maxLen dropped approximate =>
    publishScript s content now maxLen dropped approximate
  | .command k => command s k

abbrev run : State β → List (Action β) → Option (State β) :=
  Transition.run step

structure HistoryPage (β : Type) where
  publications : List (Publication β)
  truncated : Bool
  gap : Bool
  gapReason : HistoryGapReason
  firstRetained : UInt64
  deriving DecidableEq, Repr

def middleGap : List UInt64 → Bool
  | prev :: cur :: rest =>
    (0 < prev && 0 < cur && cur ≠ prev + 1) || middleGap (cur :: rest)
  | _ => false

def gapReason (pubs : List (Publication β)) (sinceOffset firstRetained : UInt64) :
    HistoryGapReason :=
  if 0 < sinceOffset ∧ pubs = [] then .emptyExpired
  else if 0 < sinceOffset ∧ sinceOffset < firstRetained then .headTrimmed
  else if middleGap (pubs.map Publication.seq) then .middle
  else .none

def getHistory (s : State β) (ch : String) (sinceOffset : UInt64) (limit : Int) : HistoryPage β :=
  let limit := if limit ≤ 0 then defaultHistoryLimit else limit.toNat
  let messages := xrangeN s.stream (streamStartID sinceOffset) limit
  let pubs := messages.map (entryPublication ch)
  let marked := s.marker.getD 0
  let firstRetained :=
    if marked = 0 then (messages.head?.map Entry.offset).getD 0 else marked
  let reason := gapReason pubs sinceOffset firstRetained
  { publications := pubs
    truncated := pubs.length = limit
    gap := reason ≠ .none
    gapReason := reason
    firstRetained := firstRetained }

section Reads
variable {pubs : List (Publication β)} {since first : UInt64}

theorem middleGap_dense (a n : Nat) : middleGap ((List.range' a n).map ofNat) = false := by
  induction n generalizing a with
  | zero => rfl
  | succ n ih =>
    cases n with
    | zero => rfl
    | succ n =>
      have hstep : ofNat (a + 1) = ofNat a + 1 := ofNat_add a 1
      have hrest := ih (a + 1)
      simp only [range'_succ, map_cons, middleGap] at hrest ⊢
      rw [hrest, hstep]
      simp

/-- Without holes in the page, a positive start offset is found covered exactly if the page has an
entry and the marker does not exceed the offset. -/
theorem gapReason_ne_none_iff (hsince : 0 < since) (hpubs : pubs ≠ [])
    (hdense : middleGap (pubs.map Publication.seq) = false) :
    gapReason pubs since first ≠ .none ↔ since < first := by
  unfold gapReason
  rw [if_neg fun h => hpubs h.2]
  by_cases hfirst : since < first
  · simp [hsince, hfirst]
  · simp [hfirst, hdense]

theorem map_seq_entryPublication (ch : String) (entries : List (Entry β)) :
    (entries.map (entryPublication ch)).map Publication.seq =
      (entries.map Entry.seq).map ofNat := by
  simp only [map_map]
  rfl

end Reads

def Stage.value : Stage → Option UInt64
  | .inspect v | .mark v | .check v => some v
  | .broadcast => none

def Named (s : State β) (v : UInt64) : Prop :=
  ∃ e ∈ s.accepted, e.offset = v

/-- IDs increase over everything accepted, sequence numbers are dense, trimming leaves an entry,
and calls and marker only hold offsets of accepted entries. A call broadcasts once the marker has
been written. -/
structure Inv (s : State β) : Prop where
  increasing : Increasing s.accepted
  positive : ∀ e ∈ s.accepted, 0 < e.id.rank
  latest : ∀ e ∈ s.accepted, e.id.rank ≤ s.lastID.rank
  dense : s.accepted.map Entry.seq = List.range' 1 s.counter
  retained : s.stream = [] → s.trimmed = []
  calling : ∀ c ∈ s.calls, ∀ v, c.value = some v → Named s v
  marked : ∀ v, s.marker = some v → Named s v
  unmarked : s.marker = none → .broadcast ∉ s.calls ∧ (s.calls = [] → s.accepted = [])

variable {s t : State β}

theorem inv_start : Inv (State.start : State β) where
  increasing := .nil
  positive _ h := by cases h
  latest _ h := by cases h
  dense := rfl
  retained _ := rfl
  calling _ h := by cases h
  marked _ h := by cases h
  unmarked _ := ⟨not_mem_nil, fun _ => rfl⟩

theorem publishScript_eq_some {content : β} {now : UInt64} {maxLen dropped : Nat}
    {approximate : Bool} (h : publishScript s content now maxLen dropped approximate = some t) :
    ∃ e : Entry β, s.lastID.rank < e.id.rank ∧ e.seq = s.counter + 1 ∧
      dropped < s.stream.length + 1 ∧
      t = { s with
        counter := s.counter + 1
        lastID := e.id
        stream := (s.stream ++ [e]).drop dropped
        trimmed := s.trimmed ++ (s.stream ++ [e]).take dropped
        calls := s.calls ++ [.inspect e.offset] } := by
  obtain ⟨id, hid, h⟩ := Option.bind_eq_some_iff.mp h
  dsimp only at h
  split at h
  case isFalse => cases h
  case isTrue hguard =>
    obtain ⟨hpos, hdropped, -⟩ := hguard
    refine ⟨⟨id, s.counter + 1, content⟩, rank_lt_nextID hid, rfl, ?_, (Option.some.inj h).symm⟩
    rw [length_append, length_singleton] at hdropped
    omega

theorem inv_publishScript {content : β} {now : UInt64} {maxLen dropped : Nat} {approximate : Bool}
    (hinv : Inv s)
    (h : publishScript s content now maxLen dropped approximate = some t) : Inv t := by
  obtain ⟨entry, hid, hseq, hdropped, rfl⟩ := publishScript_eq_some h
  set u : State β := { s with
    counter := s.counter + 1
    lastID := entry.id
    stream := (s.stream ++ [entry]).drop dropped
    trimmed := s.trimmed ++ (s.stream ++ [entry]).take dropped
    calls := s.calls ++ [.inspect entry.offset] }
  -- Trimming moves entries from the head of the stream to the end of the trimmed ones.
  have haccepted : u.accepted = s.accepted ++ [entry] := by
    simp [u, State.accepted, append_assoc]
  have hkept {v : UInt64} (hv : Named s v) : Named u v := by
    obtain ⟨e, he, hev⟩ := hv
    exact ⟨e, by rw [haccepted]; exact mem_append_left _ he, hev⟩
  have hcases {e : Entry β} (he : e ∈ u.accepted) : e ∈ s.accepted ∨ e = entry := by
    simpa [haccepted] using he
  have hbelow (e : Entry β) (he : e ∈ s.accepted) : e.id.rank < entry.id.rank :=
    (hinv.latest e he).trans_lt hid
  exact
    { increasing := by
        rw [haccepted]
        refine pairwise_append.mpr ⟨hinv.increasing, pairwise_singleton .., ?_⟩
        intro e he e' he'
        rw [mem_singleton.mp he']
        exact hbelow e he
      positive := by
        intro e he
        rcases hcases he with he | rfl
        · exact hinv.positive e he
        · exact Nat.zero_lt_of_lt hid
      latest := by
        intro e he
        rcases hcases he with he | rfl
        · exact (hbelow e he).le
        · exact le_rfl
      dense := by
        rw [haccepted, map_append, hinv.dense]
        simp [u, hseq, range'_concat, Nat.add_comm]
      retained := by
        intro hstream
        have hlength := congrArg length hstream
        simp only [u, length_drop, length_append, length_singleton,
          length_nil] at hlength
        omega
      calling := by
        refine forall_mem_snoc (fun c hc v hv => hkept (hinv.calling c hc v hv)) fun v hv => ?_
        exact ⟨entry, by simp [haccepted], Option.some.inj hv⟩
      marked := fun v hv => hkept (hinv.marked v hv)
      unmarked := by
        intro hnone
        refine ⟨?_, fun hcalls => by simp [u] at hcalls⟩
        intro hmem
        rcases mem_append.mp hmem with hmem | hmem
        · exact (hinv.unmarked hnone).1 hmem
        · cases mem_singleton.mp hmem }

/-- A call that only advances keeps the invariant: what it goes on to use is named, and it
broadcasts only once there is a marker. -/
theorem inv_advance (hinv : Inv s) {k : Nat} {next : Stage} (hcall : s.calls[k]? ≠ none)
    (hnext : ∀ v, next.value = some v → Named s v) (hmarker : next = .broadcast → s.marker ≠ none) :
    Inv { s with calls := s.calls.set k next } :=
  { hinv with
    calling := forall_mem_set hinv.calling hnext
    unmarked := by
      intro hnone
      refine ⟨?_, ?_⟩
      · intro hmem
        rcases mem_or_eq_of_mem_set hmem with hmem | heq
        · exact (hinv.unmarked hnone).1 hmem
        · exact hmarker heq.symm hnone
      · intro hcalls
        rw [set_eq_nil_iff] at hcalls
        exact absurd (by simp [hcalls]) hcall }

theorem named_head {e : Entry β} (he : s.stream.head? = some e) : Named s e.offset :=
  ⟨e, mem_append_right _ (mem_of_head? he), rfl⟩

theorem inv_command (hinv : Inv s) {k : Nat} (h : command s k = some t) : Inv t := by
  unfold command at h
  split at h
  case h_1 => cases h
  case h_2 offset hcall =>
    cases h
    refine inv_advance hinv (by simp [hcall]) ?_ ?_
    · intro v hv
      split at hv
      case isTrue hfirst =>
        cases hhead : s.stream.head? with
        | none => simp [hhead] at hfirst
        | some e =>
          rw [hhead] at hv
          exact Option.some.inj hv ▸ named_head hhead
      case isFalse =>
        exact hinv.calling _ (mem_of_getElem? hcall) v hv
    · intro hbroadcast
      split at hbroadcast <;> cases hbroadcast
  case h_3 value hcall =>
    cases h
    have hvalue : Named s value := hinv.calling _ (mem_of_getElem? hcall) value rfl
    have hmarked : Inv { s with marker := some value } :=
      { hinv with
        marked := fun v hv => Option.some.inj hv ▸ hvalue
        unmarked := fun hnone => by cases hnone }
    exact inv_advance hmarked (by simp [hcall]) nofun fun _ => by simp
  case h_4 fallback hcall =>
    cases h
    refine inv_advance hinv (by simp [hcall]) ?_ ?_
    · intro v hv
      split at hv
      case isTrue => cases hv
      case isFalse =>
        exact hinv.calling _ (mem_of_getElem? hcall) v hv
    · intro hbroadcast
      split at hbroadcast
      case isTrue hsome => exact Option.isSome_iff_ne_none.mp hsome
      case isFalse => cases hbroadcast
  case h_5 hcall =>
    cases h
    have hmarker : s.marker ≠ none := fun hnone =>
      (hinv.unmarked hnone).1 (mem_of_getElem? hcall)
    exact
      { hinv with
        calling := fun c hc => hinv.calling c (mem_of_mem_eraseIdx hc)
        unmarked := fun hnone => absurd hnone hmarker }

theorem inv_run {as : List (Action β)} (hrun : run State.start as = some s) : Inv s := by
  refine Transition.invariant inv_start (fun s a t hinv h => ?_) hrun
  cases a with
  | script => exact inv_publishScript hinv h
  | command => exact inv_command hinv h

theorem middleGap_stretch (hinv : Inv s) (ch : String) (skipped count : Nat) :
    middleGap ((((s.stream.drop skipped).take count).map (entryPublication ch)).map
      Publication.seq) = false := by
  rw [map_seq_entryPublication]
  have hstretch : ((s.stream.drop skipped).take count).map Entry.seq =
      ((range' 1 s.counter).drop (s.trimmed.length + skipped)).take count := by
    rw [← hinv.dense, State.accepted, map_append, ← drop_drop,
      drop_left' (length_map ..), map_take, map_drop]
  rw [hstretch, drop_range']
  rcases Nat.le_total (s.counter - (s.trimmed.length + skipped)) count with hle | hge
  · rw [take_range'_of_length_le hle]
    exact middleGap_dense _ _
  · rw [take_range'_of_length_ge hge]
    exact middleGap_dense _ _

/-- A read from an offset at or before a trimmed entry reports a gap exactly if the marker exceeds
the offset. -/
theorem getHistory_gap_iff (hinv : Inv s) (hrep : ∀ e ∈ s.accepted, e.id.Representable)
    {trimmed : Entry β} (htrimmed : trimmed ∈ s.trimmed) {v since : UInt64}
    (hmarker : s.marker = some v) (hv : v ≠ 0) (hsince : 0 < since)
    (hbefore : since ≤ trimmed.offset) (ch : String) (limit : Int) :
    (getHistory s ch since limit).gap = true ↔ since < v := by
  have hlimit : 0 < if limit ≤ 0 then defaultHistoryLimit else limit.toNat := by
    split
    · decide
    · omega
  have hrange (count : Nat) :
      xrangeN s.stream (streamStartID since) count = s.stream.take count := by
    refine xrangeN_of_forall fun e he => ?_
    have hlt := (pairwise_append.mp hinv.increasing).2.2 trimmed htrimmed e he
    have hstart := (startID_le_iff (hrep trimmed (mem_append_left _ htrimmed)) since).mpr
      hbefore
    omega
  have hdense (count : Nat) :
      middleGap (((s.stream.take count).map (entryPublication ch)).map Publication.seq) =
        false := by
    simpa using middleGap_stretch hinv ch 0 count
  have hne : s.stream ≠ [] := by
    intro hnil
    rw [hinv.retained hnil] at htrimmed
    cases htrimmed
  rw [getHistory]
  simp only [hrange, hmarker, Option.getD_some, if_neg hv, decide_eq_true_eq]
  refine gapReason_ne_none_iff hsince ?_ (hdense _)
  simp only [ne_eq, map_eq_nil_iff, take_eq_nil_iff, not_or]
  exact ⟨by omega, hne⟩

theorem offset_ne_zero (hinv : Inv s) (hrep : ∀ e ∈ s.accepted, e.id.Representable) {e : Entry β}
    (he : e ∈ s.accepted) : e.offset ≠ 0 := by
  have hzero : (⟨0, 0⟩ : StreamID).Representable := by decide
  have hpos : (⟨0, 0⟩ : StreamID).rank < e.id.rank := hinv.positive e he
  have hlt := (offset_lt_iff hzero (hrep e he)).mpr hpos
  intro heq
  rw [Entry.offset] at heq
  rw [heq] at hlt
  exact absurd hlt (by decide)

def GapSound (s : State β) : Prop :=
  ∀ (ch : String) (since : UInt64) (limit : Int), 0 < since →
    (∃ e ∈ s.trimmed, since ≤ e.offset) → (getHistory s ch since limit).gap = true

/-- When all calls have finished, the gaps of the history are reported exactly if nothing has been
trimmed or the marker names a publication that is still retained. -/
theorem history_gap_sound_iff {as : List (Action β)} (hrun : run State.start as = some s)
    (hdone : s.calls = []) (hrep : ∀ e ∈ s.accepted, e.id.Representable) :
    GapSound s ↔ s.trimmed = [] ∨ ∃ e ∈ s.stream, s.marker = some e.offset := by
  have hinv := inv_run hrun
  constructor
  · intro hsound
    by_cases htrimmed : s.trimmed = []
    · exact .inl htrimmed
    · right
      have haccepted : s.accepted ≠ [] := fun hnil => htrimmed (append_eq_nil_iff.mp hnil).1
      obtain ⟨v, hmarker⟩ : ∃ v, s.marker = some v := by
        refine Option.ne_none_iff_exists'.mp fun hnone => ?_
        exact haccepted ((hinv.unmarked hnone).2 hdone)
      obtain ⟨e, he, rfl⟩ := hinv.marked v hmarker
      have hne := offset_ne_zero hinv hrep he
      rcases mem_append.mp he with hold | hkept
      · -- A read from the marked offset itself takes the trimmed head for covered.
        have hpos : 0 < e.offset := UInt64.pos_iff_ne_zero.mpr hne
        have hgap := hsound "" e.offset 0 hpos ⟨e, hold, UInt64.le_refl _⟩
        rw [getHistory_gap_iff hinv hrep hold hmarker hne hpos (UInt64.le_refl _)] at hgap
        exact absurd hgap (UInt64.lt_irrefl _)
      · exact ⟨e, hkept, hmarker⟩
  · rintro (hnil | ⟨e, he, hmarker⟩) ch since limit hsince ⟨old, hold, hle⟩
    · rw [hnil] at hold
      cases hold
    · have hacc : e ∈ s.accepted := mem_append_right _ he
      have hlt := (pairwise_append.mp hinv.increasing).2.2 old hold e he
      have hoffset : old.offset < e.offset :=
        (offset_lt_iff (hrep old (mem_append_left _ hold)) (hrep e hacc)).mpr hlt
      rw [getHistory_gap_iff hinv hrep hold hmarker (offset_ne_zero hinv hrep hacc) hsince hle]
      exact UInt64.lt_of_le_of_lt hle hoffset

def sequential : List (Action Unit) :=
  [.script () 1 1 0 true, .command 0, .command 0, .command 0,
    .script () 2 1 1 true, .command 0, .command 0, .command 0]

/-- The first call reads the head of the stream before the second publication trims it, and
writes the marker after the second call has written its own. -/
def overwritten : List (Action Unit) :=
  [.script () 1 1 0 true, .command 0, .script () 2 1 1 true,
    .command 1, .command 1, .command 0, .command 0, .command 0]

theorem history_gap_sound_sequential :
    ∃ s, run State.start sequential = some s ∧ s.calls = [] ∧ s.trimmed ≠ [] ∧ GapSound s := by
  obtain ⟨s, hrun, hdone, hrep, htrimmed, hmarker⟩ :
      ∃ s, run State.start sequential = some s ∧ s.calls = [] ∧
        (∀ e ∈ s.accepted, e.id.Representable) ∧ s.trimmed ≠ [] ∧
        ∃ e ∈ s.stream, s.marker = some e.offset :=
    ⟨_, rfl, rfl, by decide, by decide, by decide⟩
  exact ⟨s, hrun, hdone, htrimmed, (history_gap_sound_iff hrun hdone hrep).mpr (.inr hmarker)⟩

/-- The marker names the trimmed publication, and a read from it is told that nothing is missing. -/
theorem history_gap_missed :
    ∃ s, run State.start overwritten = some s ∧ s.calls = [] ∧
      (∃ e ∈ s.trimmed, e.offset = 1048576) ∧
      (getHistory s "room" 1048576 0).gap = false :=
  ⟨_, rfl, rfl, by decide, by decide⟩

end MessageLoop.Redis.History
