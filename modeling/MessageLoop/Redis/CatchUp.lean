import MessageLoop.Redis.Stream
import MessageLoop.Stream.Broker

/-!
The catch-up pass of one exactly subscribed channel after a reconnect
(`pkg/redisbroker/pubsub.go`, `catchUpMissed`).

While the connection is up, live delivery records the offset and the dense sequence number of what
it dispatches. After a disconnect the pass replays the stream behind the recorded offset, checks
the sequence numbers of what it read and, if the read was full, looks for newer entries.
Publications, trimming, deletions and expiry go on at any time; the reads succeed.
-/

namespace MessageLoop.Redis.CatchUp

open List UInt64

open MessageLoop.Broker (HistoryGapReason)

structure Config where
  channel : String
  streamMaxLength : Nat

structure CatchUpGap where
  channel : String
  reason : HistoryGapReason
  lastGoodSeq : UInt64
  lastGoodOffset : UInt64
  deriving DecidableEq, Repr

variable {β : Type}

/-- `held` is the stream at the read of the pass and `due` what was accepted behind the baseline
until then; `newest` is the newest offset at the second read. -/
inductive Phase (β : Type) where
  | connected
  | disconnected
  | replayed (held due messages : List (Entry β)) (last seq : UInt64) (notified : Bool)
  | finished (held due : List (Entry β)) (last seq newest : UInt64)
  deriving DecidableEq, Repr

/-- `log` lists every accepted publication. The entry of `lastOffset` and `lastSeq` is the one
before `position`. -/
structure State (β : Type) where
  counter : Nat
  lastID : StreamID
  stream : List (Entry β)
  log : List (Entry β)
  lastOffset : Option UInt64
  lastSeq : UInt64
  position : Nat
  phase : Phase β
  dispatched : List (Publication β)
  gaps : List CatchUpGap
  deriving DecidableEq, Repr

def State.start : State β :=
  ⟨0, ⟨0, 0⟩, [], [], none, 0, 0, .connected, [], []⟩

def publishScript (s : State β) (content : β) (now : UInt64) : Option (State β) :=
  if s.counter + 1 < 2 ^ 63 then
    (nextID s.lastID now).map fun id =>
      let entry : Entry β := ⟨id, s.counter + 1, content⟩
      { s with
        counter := s.counter + 1
        lastID := id
        stream := s.stream ++ [entry]
        log := s.log ++ [entry] }
  else none

def deliverOnce (s : State β) (p : Publication β) : State β :=
  if p.offset = 0 then { s with dispatched := s.dispatched ++ [p] }
  else if s.lastOffset.any (p.offset ≤ ·) then s
  else
    { s with
      lastOffset := some p.offset
      lastSeq := if 0 < p.seq then p.seq else s.lastSeq
      dispatched := s.dispatched ++ [p] }

/-- The first hole of the replayed range: the sequence number and offset in front of it. An entry
without a sequence number breaks the chain. -/
def seqGap (prev prevOffset : UInt64) : List (Entry β) → Option (UInt64 × UInt64)
  | [] => none
  | e :: rest =>
    let seq := streamEntrySeq e
    if seq = 0 then seqGap 0 0 rest
    else if 0 < prev ∧ seq ≠ prev + 1 then some (prev, prevOffset)
    else seqGap seq e.offset rest

def checkCatchUpSeqGap (cfg : Config) (messages : List (Entry β))
    (baseline baselineOffset : UInt64) :
    List CatchUpGap :=
  ((seqGap baseline baselineOffset messages).map fun good =>
    ⟨cfg.channel, .middle, good.1, good.2⟩).toList

def newestStreamOffset (stream : List (Entry β)) : UInt64 :=
  (stream.getLast?.map Entry.offset).getD 0

def deliveredTail (messages : List (Entry β)) (last : UInt64) : UInt64 :=
  (messages.getLast?.map Entry.offset).getD last

def checkCatchUpGap (cfg : Config) (messages : List (Entry β)) (last newest : UInt64)
    (alreadyNotified : Bool) : List CatchUpGap :=
  if messages.length < cfg.streamMaxLength then []
  else if deliveredTail messages last < newest ∧ alreadyNotified = false then
    [⟨cfg.channel, .replayTruncated, 0, deliveredTail messages last⟩]
  else []

def catchUpMissed (cfg : Config) (s : State β) : Option (State β) :=
  match s.phase, s.lastOffset with
  | .disconnected, some last =>
    let messages := xrangeN s.stream (streamStartID (last + 1)) cfg.streamMaxLength
    let replayed := (messages.map (entryPublication cfg.channel)).foldl deliverOnce s
    let gaps := checkCatchUpSeqGap cfg messages s.lastSeq last
    some { replayed with
      phase := .replayed s.stream (s.log.drop s.position) messages last s.lastSeq (gaps ≠ [])
      gaps := s.gaps ++ gaps }
  | _, _ => none

def finish (cfg : Config) (s : State β) : Option (State β) :=
  match s.phase with
  | .replayed held due messages last seq notified =>
    let newest := newestStreamOffset s.stream
    some { s with
      phase := .finished held due last seq newest
      gaps := s.gaps ++ checkCatchUpGap cfg messages last newest notified }
  | _ => none

def deliver (cfg : Config) (s : State β) (k : Nat) : Option (State β) :=
  match s.phase, s.log[k]? with
  | .connected, some e =>
    let p := entryPublication cfg.channel e
    let t := deliverOnce s p
    some { t with position := if t.lastOffset = s.lastOffset then s.position else k + 1 }
  | _, _ => none

/-- A pass needs a baseline with a sequence number; what was dispatched live before is not counted
among its dispatches. -/
def disconnect (s : State β) : Option (State β) :=
  match s.phase, s.lastOffset with
  | .connected, some last =>
    if 0 < last ∧ 0 < s.lastSeq then some { s with phase := .disconnected, dispatched := [] }
    else none
  | _, _ => none

/-- `trim` drops the oldest entries; `expire` removes the stream with its last ID. -/
inductive Action (β : Type) where
  | publish (content : β) (now : UInt64)
  | trim (n : Nat)
  | delete (k : Nat)
  | expire
  | expireCounter
  | deliver (k : Nat)
  | disconnect
  | catchUp
  | finish
  deriving DecidableEq, Repr

def step (cfg : Config) (s : State β) : Action β → Option (State β)
  | .publish content now => publishScript s content now
  | .trim n => some { s with stream := s.stream.drop n }
  | .delete k => some { s with stream := s.stream.eraseIdx k }
  | .expire => some { s with stream := [], lastID := ⟨0, 0⟩ }
  | .expireCounter => some { s with counter := 0 }
  | .deliver k => deliver cfg s k
  | .disconnect => disconnect s
  | .catchUp => catchUpMissed cfg s
  | .finish => finish cfg s

abbrev run (cfg : Config) : State β → List (Action β) → Option (State β) :=
  Transition.run (step cfg)

def replayable (cfg : Config) (held : List (Entry β)) (last : UInt64) : List (Entry β) :=
  (held.filter fun e => decide (last < e.offset)).take cfg.streamMaxLength

/-- The pass dispatched everything that was due, or it notified exactly once. -/
def NoSilentLoss (cfg : Config) (s : State β) (due : List (Entry β)) : Prop :=
  (∀ e ∈ due, entryPublication cfg.channel e ∈ s.dispatched) ∨ s.gaps.length = 1

/-- Loss is visible in the replayed range: its sequence numbers do not continue the baseline's, or
it was cut off and the stream still has a newer entry. -/
def LossVisible (cfg : Config) (replayed : List (Entry β)) (last seq newest : UInt64) : Prop :=
  replayed.map Entry.seq ≠ List.range' (seq.toNat + 1) replayed.length ∨
    cfg.streamMaxLength ≤ replayed.length ∧ deliveredTail replayed last < newest

variable {cfg : Config} {s t : State β} {held entries : List (Entry β)} {last : UInt64}
variable {e : Entry β}

section Replay

theorem deliverOnce_frame {p : Publication β} (hs : s.lastSeq.toNat < 2 ^ 63)
    (hp : p.seq.toNat < 2 ^ 63) :
    ∃ lastOffset lastSeq dispatched, lastSeq.toNat < 2 ^ 63 ∧
      deliverOnce s p =
        { s with lastOffset := lastOffset, lastSeq := lastSeq, dispatched := dispatched } := by
  unfold deliverOnce
  split
  · exact ⟨_, _, _, hs, rfl⟩
  · split
    · exact ⟨_, _, _, hs, rfl⟩
    · refine ⟨_, _, _, ?_, rfl⟩
      split
      · exact hp
      · exact hs

theorem foldl_deliverOnce_frame {ps : List (Publication β)} (hs : s.lastSeq.toNat < 2 ^ 63)
    (hps : ∀ p ∈ ps, p.seq.toNat < 2 ^ 63) :
    ∃ lastOffset lastSeq dispatched, lastSeq.toNat < 2 ^ 63 ∧
      ps.foldl deliverOnce s =
        { s with lastOffset := lastOffset, lastSeq := lastSeq, dispatched := dispatched } := by
  induction ps generalizing s with
  | nil => exact ⟨_, _, _, hs, rfl⟩
  | cons p ps ih =>
    obtain ⟨_, _, _, hseq, hstep⟩ := deliverOnce_frame hs (hps p mem_cons_self)
    rw [foldl_cons, hstep]
    exact ih hseq fun q hq => hps q (mem_cons_of_mem _ hq)

theorem dispatched_foldl {ps : List (Publication β)}
    (hincreasing : ps.Pairwise fun p q => p.offset < q.offset)
    (hbeyond : ∀ p ∈ ps, 0 < p.offset ∧ ∀ last, s.lastOffset = some last → last < p.offset) :
    (ps.foldl deliverOnce s).dispatched = s.dispatched ++ ps := by
  induction ps generalizing s with
  | nil => simp
  | cons p ps ih =>
    obtain ⟨hhead, htail⟩ := pairwise_cons.mp hincreasing
    obtain ⟨hpos, hnew⟩ := hbeyond p mem_cons_self
    have hfresh : s.lastOffset.any (p.offset ≤ ·) = false := by
      cases hlast : s.lastOffset with
      | none => rfl
      | some last => simpa using hnew last hlast
    have hstep : deliverOnce s p =
        { s with
          lastOffset := some p.offset
          lastSeq := if 0 < p.seq then p.seq else s.lastSeq
          dispatched := s.dispatched ++ [p] } := by
      rw [deliverOnce, if_neg (UInt64.pos_iff_ne_zero.mp hpos), hfresh]
      rfl
    rw [foldl_cons, ih htail, hstep]
    · simp
    · intro q hq
      refine ⟨(hbeyond q (mem_cons_of_mem _ hq)).1, fun last hlast => ?_⟩
      rw [hstep] at hlast
      exact Option.some.inj hlast ▸ hhead q hq

theorem lt_iff_succ_le {offset : UInt64} (hroom : last.toNat < 2 ^ 64 - 1) :
    last + 1 ≤ offset ↔ last < offset := by
  rw [le_iff_toNat_le, lt_iff_toNat_lt, toNat_succ hroom]
  exact Nat.succ_le_iff

theorem xrangeN_eq_replayable (hroom : last.toNat < 2 ^ 64 - 1)
    (hrep : ∀ e ∈ held, e.id.Representable) :
    xrangeN held (streamStartID (last + 1)) cfg.streamMaxLength = replayable cfg held last := by
  rw [xrangeN, replayable]
  congr 1
  refine filter_congr fun e he => ?_
  rw [decide_eq_decide, startID_le_iff (hrep e he), lt_iff_succ_le hroom]
  rfl

theorem pairwise_offset (hincreasing : Increasing held) (hrep : ∀ e ∈ held, e.id.Representable) :
    held.Pairwise fun a b => a.offset < b.offset :=
  hincreasing.imp_of_mem fun ha hb hlt => (offset_lt_iff (hrep _ ha) (hrep _ hb)).mpr hlt

theorem mem_replayable (he : e ∈ replayable cfg held last) : e ∈ held ∧ last < e.offset := by
  have hmem := mem_of_mem_take he
  exact ⟨mem_of_mem_filter hmem, by simpa using of_mem_filter hmem⟩

theorem dispatched_replay (hincreasing : Increasing held) (hrep : ∀ e ∈ held, e.id.Representable)
    (hlast : s.lastOffset = some last) :
    (((replayable cfg held last).map (entryPublication cfg.channel)).foldl
      deliverOnce s).dispatched =
        s.dispatched ++ (replayable cfg held last).map (entryPublication cfg.channel) := by
  refine dispatched_foldl ?_ ?_
  · have hsublist : (replayable cfg held last).Sublist held :=
      (take_sublist _ _).trans filter_sublist
    exact pairwise_map.mpr ((pairwise_offset hincreasing hrep).sublist hsublist)
  · refine forall_mem_map.mpr fun e he => ?_
    obtain ⟨-, hlt⟩ := mem_replayable he
    refine ⟨UInt64.lt_of_le_of_lt (UInt64.zero_le) hlt, fun last' hlast' => ?_⟩
    rw [hlast] at hlast'
    exact Option.some.inj hlast' ▸ hlt

def Numbered (entries : List (Entry β)) : Prop :=
  ∀ e ∈ entries, 0 < e.seq ∧ e.seq < 2 ^ 63

theorem seqGap_eq_none_iff {prev : Nat} (hprev : 0 < prev ∧ prev < 2 ^ 63) (offset : UInt64)
    (hnum : Numbered entries) :
    seqGap (.ofNat prev) offset entries = none ↔
      entries.map Entry.seq = List.range' (prev + 1) entries.length := by
  induction entries generalizing prev offset with
  | nil => simp [seqGap]
  | cons e rest ih =>
    have he := hnum e mem_cons_self
    have hrest : Numbered rest := fun e' he' => hnum e' (mem_cons_of_mem _ he')
    have hseq : (streamEntrySeq e).toNat = e.seq :=
      toNat_ofNat_of_lt' (he.2.trans (by decide))
    have hbase : (ofNat prev).toNat = prev :=
      toNat_ofNat_of_lt' (hprev.2.trans (by decide))
    have hne : streamEntrySeq e ≠ 0 := by
      intro hzero
      rw [hzero, UInt64.toNat_zero] at hseq
      omega
    have hpos : 0 < ofNat prev := by
      rw [lt_iff_toNat_lt, UInt64.toNat_zero, hbase]
      exact hprev.1
    have hnext : streamEntrySeq e = ofNat prev + 1 ↔ e.seq = prev + 1 := by
      rw [← UInt64.toNat_inj, hseq, toNat_succ (by omega), hbase]
    rw [seqGap]
    simp only [if_neg hne, map_cons, length_cons, range'_succ, cons.injEq]
    by_cases hconsecutive : e.seq = prev + 1
    · have hskip : ¬(0 < ofNat prev ∧ streamEntrySeq e ≠ ofNat prev + 1) :=
        fun h => h.2 (hnext.mpr hconsecutive)
      rw [if_neg hskip]
      have hih := ih he e.offset hrest
      rw [streamEntrySeq, hih, hconsecutive]
      simp
    · have hhole : 0 < ofNat prev ∧ streamEntrySeq e ≠ ofNat prev + 1 :=
        ⟨hpos, fun h => hconsecutive (hnext.mp h)⟩
      rw [if_pos hhole]
      simp [hconsecutive]

end Replay

structure Pass (cfg : Config) (dispatched : List (Publication β)) (held messages : List (Entry β))
    (last seq : UInt64) : Prop where
  increasing : Increasing held
  numbered : Numbered held
  positive : 0 < seq.toNat
  bounded : seq.toNat < 2 ^ 63
  read : messages = xrangeN held (streamStartID (last + 1)) cfg.streamMaxLength
  replayed : last.toNat < 2 ^ 64 - 1 → (∀ e ∈ held, e.id.Representable) →
    dispatched = messages.map (entryPublication cfg.channel)

def PhaseInv (cfg : Config) (s : State β) : Prop :=
  match s.phase with
  | .connected => s.gaps = []
  | .disconnected => s.gaps = [] ∧ s.dispatched = [] ∧ 0 < s.lastSeq.toNat
  | .replayed held _ messages last seq notified =>
    Pass cfg s.dispatched held messages last seq ∧
      s.gaps = checkCatchUpSeqGap cfg messages seq last ∧ notified = decide (s.gaps ≠ [])
  | .finished held _ last seq newest =>
    ∃ messages, Pass cfg s.dispatched held messages last seq ∧
      s.gaps = checkCatchUpSeqGap cfg messages seq last ++
        checkCatchUpGap cfg messages last newest
          (decide (checkCatchUpSeqGap cfg messages seq last ≠ []))

structure Inv (cfg : Config) (s : State β) : Prop where
  increasing : Increasing s.stream
  latest : ∀ e ∈ s.stream, e.id.rank ≤ s.lastID.rank
  numbered : Numbered s.stream
  logged : Numbered s.log
  bounded : s.lastSeq.toNat < 2 ^ 63
  phase : PhaseInv cfg s

section Invariant

theorem inv_start : Inv cfg (State.start : State β) where
  increasing := .nil
  latest _ h := by cases h
  numbered _ h := by cases h
  logged _ h := by cases h
  bounded := Nat.two_pow_pos 63
  phase := rfl

theorem numbered_snoc (hentries : Numbered entries) (he : 0 < e.seq ∧ e.seq < 2 ^ 63) :
    Numbered (entries ++ [e]) :=
  forall_mem_snoc hentries he

theorem seq_entryPublication (hnum : Numbered entries) (ch : String) (he : e ∈ entries) :
    (entryPublication ch e).seq.toNat < 2 ^ 63 := by
  have hseq := hnum e he
  have heq : (ofNat e.seq).toNat = e.seq :=
    toNat_ofNat_of_lt' (hseq.2.trans (by decide))
  rw [entryPublication, heq]
  exact hseq.2

section
variable (hinv : Inv cfg s)
include hinv

theorem inv_publishScript {content : β} {now : UInt64}
    (h : publishScript s content now = some t) : Inv cfg t := by
  unfold publishScript at h
  split at h
  case isFalse => cases h
  case isTrue hroom =>
    obtain ⟨id, hid, rfl⟩ := Option.map_eq_some_iff.mp h
    have hlt := rank_lt_nextID hid
    have hnumber : 0 < s.counter + 1 ∧ s.counter + 1 < 2 ^ 63 := ⟨Nat.succ_pos _, hroom⟩
    exact
      { increasing := by
          refine pairwise_append.mpr ⟨hinv.increasing, pairwise_singleton .., ?_⟩
          intro e he e' he'
          rw [mem_singleton.mp he']
          exact (hinv.latest e he).trans_lt hlt
        latest := forall_mem_snoc (fun e he => (hinv.latest e he).trans hlt.le) le_rfl
        numbered := numbered_snoc hinv.numbered hnumber
        logged := numbered_snoc hinv.logged hnumber
        bounded := hinv.bounded
        phase := hinv.phase }

theorem inv_sublist {stream : List (Entry β)}
    (hsublist : stream.Sublist s.stream) : Inv cfg { s with stream := stream } where
  increasing := hinv.increasing.sublist hsublist
  latest e he := hinv.latest e (hsublist.subset he)
  numbered e he := hinv.numbered e (hsublist.subset he)
  logged := hinv.logged
  bounded := hinv.bounded
  phase := hinv.phase

theorem inv_expire : Inv cfg { s with stream := [], lastID := ⟨0, 0⟩ } where
  increasing := .nil
  latest _ h := by cases h
  numbered _ h := by cases h
  logged := hinv.logged
  bounded := hinv.bounded
  phase := hinv.phase

theorem inv_deliver {k : Nat} (h : deliver cfg s k = some t) : Inv cfg t := by
  unfold deliver at h
  split at h
  case h_2 => cases h
  case h_1 e hphase he =>
    cases h
    obtain ⟨_, _, _, hseq, hstep⟩ := deliverOnce_frame hinv.bounded
      (seq_entryPublication hinv.logged cfg.channel (mem_of_getElem? he))
    have hgaps := hinv.phase
    rw [PhaseInv, hphase] at hgaps
    rw [hstep]
    exact
      { increasing := hinv.increasing
        latest := hinv.latest
        numbered := hinv.numbered
        logged := hinv.logged
        bounded := hseq
        phase := by
          rw [PhaseInv]
          dsimp only
          rw [hphase]
          exact hgaps }

theorem inv_disconnect (h : disconnect s = some t) : Inv cfg t := by
  unfold disconnect at h
  split at h
  case h_2 => cases h
  case h_1 last hphase hlast =>
    split at h
    case isFalse => cases h
    case isTrue hbaseline =>
      cases h
      have hphaseInv := hinv.phase
      rw [PhaseInv, hphase] at hphaseInv
      have hseq : 0 < s.lastSeq.toNat := by
        have hpos := hbaseline.2
        rwa [lt_iff_toNat_lt] at hpos
      exact { hinv with phase := ⟨hphaseInv, rfl, hseq⟩ }

theorem inv_catchUpMissed (h : catchUpMissed cfg s = some t) : Inv cfg t := by
  unfold catchUpMissed at h
  split at h
  case h_2 => cases h
  case h_1 last hphase hlast =>
    cases h
    have hphaseInv := hinv.phase
    rw [PhaseInv, hphase] at hphaseInv
    obtain ⟨hgaps, hdispatched, hpos⟩ := hphaseInv
    have hmessages : ∀ p ∈ (xrangeN s.stream (streamStartID (last + 1)) cfg.streamMaxLength).map
        (entryPublication cfg.channel), p.seq.toNat < 2 ^ 63 := by
      refine forall_mem_map.mpr fun e he => ?_
      have hmem : e ∈ s.stream := mem_of_mem_filter (mem_of_mem_take he)
      exact seq_entryPublication hinv.numbered _ hmem
    obtain ⟨_, _, dispatched, hseq, hfold⟩ := foldl_deliverOnce_frame hinv.bounded hmessages
    have hreplayed (hroom : last.toNat < 2 ^ 64 - 1) (hrep : ∀ e ∈ s.stream, e.id.Representable) :
        dispatched = (xrangeN s.stream (streamStartID (last + 1)) cfg.streamMaxLength).map
          (entryPublication cfg.channel) := by
      have hall := @dispatched_replay β cfg s s.stream last hinv.increasing hrep hlast
      rw [← xrangeN_eq_replayable hroom hrep, hfold, hdispatched] at hall
      exact hall
    rw [hfold]
    exact
      { increasing := hinv.increasing
        latest := hinv.latest
        numbered := hinv.numbered
        logged := hinv.logged
        bounded := hseq
        phase := by
          refine ⟨⟨hinv.increasing, hinv.numbered, hpos, hinv.bounded, rfl, hreplayed⟩, ?_, ?_⟩
          · dsimp only
            rw [hgaps, nil_append]
          · dsimp only
            rw [hgaps, nil_append] }

theorem inv_finish (h : finish cfg s = some t) : Inv cfg t := by
  unfold finish at h
  split at h
  case h_2 => cases h
  case h_1 held due messages last seq notified hphase =>
    cases h
    have hphaseInv := hinv.phase
    rw [PhaseInv, hphase] at hphaseInv
    obtain ⟨hpass, hgaps, hnotified⟩ := hphaseInv
    refine { hinv with phase := ⟨messages, hpass, ?_⟩ }
    dsimp only
    rw [hnotified, hgaps]

end

theorem inv_run {as : List (Action β)} (hrun : run cfg State.start as = some s) : Inv cfg s := by
  refine Transition.invariant inv_start (fun s a t hinv h => ?_) hrun
  cases a with
  | publish => exact inv_publishScript hinv h
  | trim n =>
    cases h
    exact inv_sublist hinv (drop_sublist n s.stream)
  | delete k =>
    cases h
    exact inv_sublist hinv (eraseIdx_sublist s.stream k)
  | expire =>
    cases h
    exact inv_expire hinv
  | expireCounter =>
    cases h
    exact { hinv with }
  | deliver => exact inv_deliver hinv h
  | disconnect => exact inv_disconnect hinv h
  | catchUp => exact inv_catchUpMissed hinv h
  | finish => exact inv_finish hinv h

theorem length_checks_eq_one_iff {messages : List (Entry β)} {seq newest : UInt64}
    (hnum : Numbered messages) (hpos : 0 < seq.toNat) (hbounded : seq.toNat < 2 ^ 63) :
    (checkCatchUpSeqGap cfg messages seq last ++ checkCatchUpGap cfg messages last newest
      (decide (checkCatchUpSeqGap cfg messages seq last ≠ []))).length = 1 ↔
        LossVisible cfg messages last seq newest := by
  have hchain := seqGap_eq_none_iff ⟨hpos, hbounded⟩ last hnum
  rw [UInt64.ofNat_toNat] at hchain
  unfold LossVisible checkCatchUpSeqGap checkCatchUpGap
  cases hgap : seqGap seq last messages with
  | some good =>
    have hbroken : messages.map Entry.seq ≠ range' (seq.toNat + 1) messages.length := by
      intro heq
      rw [hchain.mpr heq] at hgap
      cases hgap
    simp [hbroken]
  | none =>
    have hcontinues := hchain.mp hgap
    by_cases hfull : messages.length < cfg.streamMaxLength
    · simp [hcontinues, hfull, Nat.not_le.mpr hfull]
    · by_cases hnewer : deliveredTail messages last < newest
      · simp [hfull, hnewer, Nat.le_of_not_lt hfull]
      · simp [hcontinues, hnewer]

/-- A pass dispatches everything accepted behind the baseline or notifies exactly once, if and
only if what it can replay contains everything due or the loss is visible to its checks. -/
theorem no_silent_loss_iff {as : List (Action β)} {held due : List (Entry β)}
    {last seq newest : UInt64} (hrun : run cfg State.start as = some s)
    (hphase : s.phase = .finished held due last seq newest) (hrep : ∀ e ∈ held, e.id.Representable)
    (hroom : last.toNat < 2 ^ 64 - 1) :
    NoSilentLoss cfg s due ↔
      (∀ e ∈ due, entryPublication cfg.channel e ∈
        (replayable cfg held last).map (entryPublication cfg.channel)) ∨
      LossVisible cfg (replayable cfg held last) last seq newest := by
  have hphaseInv := (inv_run hrun).phase
  rw [PhaseInv, hphase] at hphaseInv
  obtain ⟨messages, hpass, hgaps⟩ := hphaseInv
  have hmessages : messages = replayable cfg held last :=
    hpass.read.trans (xrangeN_eq_replayable hroom hrep)
  have hnum : Numbered messages := by
    intro e he
    rw [hmessages] at he
    exact hpass.numbered e (mem_replayable he).1
  rw [NoSilentLoss, hpass.replayed hroom hrep, hgaps,
    length_checks_eq_one_iff hnum hpass.positive hpass.bounded, hmessages]

end Invariant

section Runs

def room : Config := ⟨"room", 10⟩

def headTrimmed : List (Action Unit) :=
  [.publish () 1, .deliver 0, .disconnect, .publish () 2, .publish () 3, .trim 2, .catchUp,
    .finish]

def expired : List (Action Unit) :=
  [.publish () 1, .deliver 0, .disconnect, .publish () 2, .expire, .expireCounter, .catchUp,
    .finish]

theorem no_silent_loss_headTrimmed :
    ∃ s held due last seq newest, run room State.start headTrimmed = some s ∧
      s.phase = .finished held due last seq newest ∧ due.length = 2 ∧
      NoSilentLoss room s due := by
  obtain ⟨s, held, due, last, seq, newest, hrun, hphase, hdue, hrep, hlast, hvisible⟩ :
      ∃ s held due last seq newest, run room State.start headTrimmed = some s ∧
        s.phase = .finished held due last seq newest ∧ due.length = 2 ∧
        (∀ e ∈ held, e.id.Representable) ∧ last.toNat < 2 ^ 64 - 1 ∧
        (replayable room held last).map Entry.seq ≠
          range' (seq.toNat + 1) (replayable room held last).length :=
    ⟨_, _, _, _, _, _, rfl, rfl, rfl, by decide, by decide, by decide⟩
  exact ⟨s, held, due, last, seq, newest, hrun, hphase, hdue,
    (no_silent_loss_iff hrun hphase hrep hlast).mpr (.inr (.inl hvisible))⟩

/-- The range behind the baseline is empty, which neither check takes for a loss. -/
theorem silent_loss_expired :
    ∃ s held due last seq newest, run room State.start expired = some s ∧
      s.phase = .finished held due last seq newest ∧ due.length = 1 ∧
      s.dispatched = [] ∧ s.gaps = [] ∧ ¬NoSilentLoss room s due := by
  refine ⟨_, _, _, _, _, _, rfl, rfl, rfl, rfl, rfl, ?_⟩
  unfold NoSilentLoss
  decide

end Runs

end MessageLoop.Redis.CatchUp
