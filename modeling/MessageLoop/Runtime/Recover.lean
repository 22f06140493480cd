import MessageLoop.Channel.Policy
import MessageLoop.Stream.Memory

/-!
Recovery of one channel for a connect, a subscribe or a resume (`internal/runtime/recover.go`):
the cursor, the gates before the history read, the replay and the `RecoverComplete` that ends it.

The broker's answers and the outcomes of the sends are arguments. Publications of the replay are
sent one by one; the first send that fails ends the replay.
-/

namespace MessageLoop.Recover

open Broker Topics Channel

def maxRecoveredPublications : Nat := 1000

inductive RecoverStatus where
  | skipped
  | ok
  | truncated
  | failed
  | epochReset
  deriving DecidableEq, Repr

inductive GapReason where
  | none
  | headTrimmed
  | emptyExpired
  | middle
  | epochReset
  deriving DecidableEq, Repr

structure Position where
  streamEpoch : String
  offset : Option Nat
  deriving DecidableEq, Repr

structure Subscription where
  channel : String
  recover : Bool
  fresh : Bool
  cursor : Option Position
  deriving DecidableEq, Repr

structure ResumeSnapshot where
  brokerEpoch : String
  channelOffsets : String → Option Nat

structure RecoverError where
  code : String
  type : String
  message : String
  deriving DecidableEq, Repr

structure RecoverComplete where
  channel : String
  position : Position
  truncated : Bool
  gap : Bool
  gapReason : GapReason
  error : Option RecoverError
  deriving DecidableEq, Repr

structure ChannelRecovery where
  channel : String
  status : RecoverStatus
  offset : Nat
  offsetSet : Bool
  epoch : String
  err : Option String
  gap : Bool
  gapReason : GapReason
  pubCount : Nat
  deriving DecidableEq, Repr

/-- What a request finds for its channel: the broker's epoch and its answers, the channel policy,
the offset last delivered to the session, and which of the sends of the replay succeed. -/
structure Context where
  epoch : String
  history : Nat → Int → Except String HistoryPage
  policy : ChannelPolicy
  delivered : Nat
  sends : Nat → Bool

/-- What a recovery has sent before its `RecoverComplete`, its result, and what is left of the
request's quota. -/
structure Replay where
  sent : List Publication
  result : ChannelRecovery
  quota : Int

def gapReasonV2 : HistoryGapReason → GapReason
  | .headTrimmed => .headTrimmed
  | .emptyExpired => .emptyExpired
  | .middle => .middle
  | _ => .none

def offsetFrom (p : Option Position) : Option Nat :=
  p.bind Position.offset

/-- `cursor` is set when `curSet` is; a `skip` that is not empty says why there is no read. -/
structure RecoveryCursor where
  cursor : Nat
  curSet : Bool
  epochReset : Bool
  sinceOffset : Nat
  skip : String
  deriving DecidableEq, Repr

def nextOffset (offset : Nat) : Nat :=
  (offset + 1) % 2 ^ 64

section Source
variable (ctx : Context)

def recoveryCursor (sub : Subscription) (snapshot : Option ResumeSnapshot) : RecoveryCursor :=
  if sub.fresh then ⟨0, false, false, 0, ""⟩
  else
    match snapshot with
    | some snap =>
      if snap.brokerEpoch ≠ "" ∧ ctx.epoch ≠ "" ∧ snap.brokerEpoch ≠ ctx.epoch then
        ⟨0, false, true, 0, ""⟩
      else
        match snap.channelOffsets sub.channel with
        | none => ⟨0, false, false, 0, "resume snapshot has no server-recorded offset"⟩
        | some offset => ⟨offset, true, false, nextOffset offset, ""⟩
    | none =>
      match offsetFrom sub.cursor with
      | some offset => ⟨offset, true, false, nextOffset offset, ""⟩
      | none =>
        if 0 < ctx.delivered then ⟨ctx.delivered, true, false, nextOffset ctx.delivered, ""⟩
        else ⟨0, false, false, 0, "no cursor and no server-recorded delivered offset"⟩

def recoverySkip (sub : Subscription) (snapshot : Option ResumeSnapshot) : String :=
  if !sub.recover then "recover not requested"
  else if isWildcard sub.channel then "wildcard channels have no history"
  else if !ctx.policy.recover || !ctx.policy.history || ctx.policy.transientOnly then
    "channel policy denies recovery"
  else
    match snapshot with
    | some snap =>
      if snap.channelOffsets sub.channel = none ∧ sub.fresh = false then
        "resume snapshot has no server-recorded offset"
      else ""
    | none =>
      if sub.fresh then ""
      else if (offsetFrom sub.cursor).isSome then ""
      else if 0 < ctx.delivered then ""
      else "no cursor and no server-recorded delivered offset"

def recoverLimit (quota : Int) : Int :=
  let limit : Int :=
    if 0 < ctx.policy.recoverLimit ∧ ctx.policy.recoverLimit < maxRecoveredPublications then
      ctx.policy.recoverLimit
    else maxRecoveredPublications
  max 0 (min limit quota)

def finishRecovery (res : ChannelRecovery) : RecoverComplete where
  channel := res.channel
  position := ⟨res.epoch, if res.offsetSet then some res.offset else none⟩
  truncated := res.status = .truncated
  gap := res.gap
  gapReason := res.gapReason
  error :=
    match res.status with
    | .failed => some ⟨"RECOVER_FAILED", "recover_error", res.err.getD ""⟩
    | .skipped => res.err.map fun err => ⟨"RECOVER_SKIPPED", "recover_error", err⟩
    | _ => none

/-- The publications that are sent before a send fails, counted from the `i`-th send on. -/
def replay (sends : Nat → Bool) : Nat → List Publication → List Publication
  | _, [] => []
  | i, pub :: rest => if sends i then pub :: replay sends (i + 1) rest else []

def finishReplay (res : ChannelRecovery) (epochReset : Bool) (limit quota : Int)
    (page : HistoryPage) : Replay :=
  let sent := replay ctx.sends 0 page.publications
  let gapReason := if epochReset then .epochReset else gapReasonV2 page.gapReason
  let status : RecoverStatus :=
    if epochReset then .epochReset
    else if page.publications.length = limit then .truncated
    else if page.gap ∧ page.publications = [] then .truncated
    else .ok
  ⟨sent, { res with
      status := status
      offset := (sent.getLast?.map Publication.offset).getD res.offset
      offsetSet := res.offsetSet || !sent.isEmpty
      gap := page.gap || epochReset
      gapReason := gapReason
      pubCount := sent.length }, quota - sent.length⟩

def recoverSubscription (sub : Subscription) (snapshot : Option ResumeSnapshot) (quota : Int) :
    Replay :=
  let res : ChannelRecovery := ⟨sub.channel, .skipped, 0, false, ctx.epoch, none, false, .none, 0⟩
  if sub.channel = "" then
    ⟨[], { res with
      err := if sub.recover then some "recovery skipped: empty channel" else none }, quota⟩
  else
    let cursor := recoveryCursor ctx sub snapshot
    let skip := recoverySkip ctx sub snapshot
    let skip := if skip = "" ∧ cursor.skip ≠ "" then cursor.skip else skip
    let res := { res with offset := cursor.cursor, offsetSet := cursor.curSet }
    if skip ≠ "" then
      ⟨[], { res with
        err := if sub.recover then some ("recovery skipped: " ++ skip) else none }, quota⟩
    else
      let limit := recoverLimit ctx quota
      if limit = 0 then ⟨[], { res with status := .truncated }, quota⟩
      else
        match ctx.history cursor.sinceOffset limit with
        | .error err => ⟨[], { res with status := .failed, err := some err }, quota⟩
        | .ok page => finishReplay ctx res cursor.epochReset limit quota page

end Source

def Replay.complete (r : Replay) : RecoverComplete :=
  finishRecovery r.result

section Property
variable (ctx : Context) (sub : Subscription) (snapshot : Option ResumeSnapshot)

def Differs (e e' : String) : Prop :=
  e ≠ "" ∧ e' ≠ "" ∧ e ≠ e'

instance (e e' : String) : Decidable (Differs e e') :=
  inferInstanceAs (Decidable (_ ∧ _))

/-- The client's cursor or the snapshot is of another epoch than the broker. -/
def Outdated : Prop :=
  (∃ pos ∈ sub.cursor, Differs pos.streamEpoch ctx.epoch) ∨
    ∃ snap ∈ snapshot, Differs snap.brokerEpoch ctx.epoch

def Reset : Prop :=
  sub.fresh = false ∧ ∃ snap ∈ snapshot, Differs snap.brokerEpoch ctx.epoch

/-- The offset after which a request that is not reset starts, if it does not start at the
beginning. -/
def startCursor : Option Nat :=
  if sub.fresh then none
  else
    match snapshot with
    | some snap => snap.channelOffsets sub.channel
    | none => (offsetFrom sub.cursor).or (if 0 < ctx.delivered then some ctx.delivered else none)

/-- The request reaches the history: an exact channel whose policy allows recovery, and an offset
to start after unless the client asks for all. -/
structure Streams : Prop where
  channel : sub.channel ≠ ""
  exact : isWildcard sub.channel = false
  recover : ctx.policy.recover = true
  history : ctx.policy.history = true
  durable : ctx.policy.transientOnly = false
  start : sub.fresh = true ∨ (startCursor ctx sub snapshot).isSome

structure Passes : Prop where
  requested : sub.recover = true
  exact : isWildcard sub.channel = false
  recover : ctx.policy.recover = true
  history : ctx.policy.history = true
  durable : ctx.policy.transientOnly = false
  start : sub.fresh = true ∨ (startCursor ctx sub snapshot).isSome

def Above (start : Option Nat) (pub : Publication) : Prop :=
  ∀ offset ∈ start, offset < pub.offset

def Reached (sends : Nat → Bool) (pubs : List Publication) (pub : Publication) : Prop :=
  ∃ n, pubs[n]? = some pub ∧ ∀ m ≤ n, sends m = true

/-- The history answers with what is retained from the offset on, up to the limit. -/
def Faithful (retained : List Publication) : Prop :=
  ∀ since (limit : Int) page, 0 < limit → ctx.history since limit = .ok page →
    page.publications = (retained.filter (since ≤ ·.offset)).take limit.toNat

structure Clean (complete : RecoverComplete) : Prop where
  error : complete.error = none
  truncated : complete.truncated = false
  gap : complete.gap = false

/-- What is retained of the current epoch above the starting cursor has been sent. -/
def CaughtUp (retained sent : List Publication) : Prop :=
  ∀ pub ∈ retained, pub.epoch = ctx.epoch → Above (startCursor ctx sub snapshot) pub → pub ∈ sent

/-- An answer that the request does not report as incomplete: nothing resets or refuses the
request, and the page is short and without a gap. -/
structure Unreported (quota : Int) (page : HistoryPage) : Prop where
  streams : Streams ctx sub snapshot
  budget : 0 < quota
  current : ¬ Reset ctx sub snapshot
  answer : ctx.history ((startCursor ctx sub snapshot).elim 0 nextOffset) (recoverLimit ctx quota) =
    .ok page
  gap : page.gap = false
  short : (page.publications.length : Int) ≠ recoverLimit ctx quota

/-- Behind an answer that is not reported as incomplete, no epoch differs and no send fails that
the client needs. -/
def Reliable (quota : Int) : Prop :=
  ∀ page, Unreported ctx sub snapshot quota page →
    ¬ Outdated ctx sub snapshot ∧
      ∀ pub ∈ page.publications, pub.epoch = ctx.epoch →
        Above (startCursor ctx sub snapshot) pub → Reached ctx.sends page.publications pub

end Property

variable {ctx : Context} {sub : Subscription} {snapshot : Option ResumeSnapshot} {quota : Int}
variable {pub : Publication} {page : HistoryPage} {pubs : List Publication}

section Replay
variable {sends : Nat → Bool}

theorem mem_replay {i : Nat} :
    pub ∈ replay sends i pubs ↔ ∃ n, pubs[n]? = some pub ∧ ∀ m ≤ n, sends (i + m) = true := by
  induction pubs generalizing i with
  | nil => simp [replay]
  | cons first rest ih =>
    unfold replay
    split_ifs with hsend
    · rw [List.mem_cons, ih]
      constructor
      · rintro (rfl | ⟨n, hn, hsends⟩)
        · refine ⟨0, rfl, fun m hm => ?_⟩
          obtain rfl : m = 0 := by omega
          exact hsend
        · refine ⟨n + 1, hn, fun m hm => ?_⟩
          cases m with
          | zero => exact hsend
          | succ m => simpa only [Nat.add_right_comm i 1, Nat.add_assoc] using hsends m (by omega)
      · rintro ⟨n, hn, hsends⟩
        cases n with
        | zero => exact .inl (Option.some.inj hn).symm
        | succ n =>
          refine .inr ⟨n, hn, fun m hm => ?_⟩
          simpa only [Nat.add_right_comm i 1, Nat.add_assoc] using hsends (m + 1) (by omega)
    · -- the first send fails, and with it every later one
      constructor
      · nofun
      · rintro ⟨n, -, hsends⟩
        exact absurd (hsends 0 (Nat.zero_le n)) hsend

theorem replay_take (i m : Nat) (pubs : List Publication) :
    replay sends i (pubs.take m) = (replay sends i pubs).take m := by
  induction pubs generalizing i m with
  | nil => simp [replay]
  | cons pub rest ih =>
    cases m with
    | zero => simp [replay]
    | succ m =>
      rw [List.take_succ_cons, replay, replay, ih]
      split_ifs <;> rfl

theorem replay_of_sends (hsends : ∀ n, sends n = true) (i : Nat) (pubs : List Publication) :
    replay sends i pubs = pubs := by
  induction pubs generalizing i with
  | nil => rfl
  | cons pub rest ih => rw [replay, if_pos (hsends i), ih]

theorem mem_replay_zero :
    pub ∈ replay sends 0 pubs ↔ Reached sends pubs pub := by
  simp only [mem_replay, Reached, Nat.zero_add]

end Replay

section Gates

theorem gate_eq_empty {c : Prop} [Decidable c] {text rest : String} (htext : text ≠ "") :
    (if c then text else rest) = "" ↔ ¬ c ∧ rest = "" := by
  split_ifs with hc
  · exact iff_of_false htext fun h => h.1 hc
  · exact (and_iff_right hc).symm

theorem startGate_eq_empty :
    (match snapshot with
      | some snap =>
        if snap.channelOffsets sub.channel = none ∧ sub.fresh = false then
          "resume snapshot has no server-recorded offset"
        else ""
      | none =>
        if sub.fresh then ""
        else if (offsetFrom sub.cursor).isSome then ""
        else if 0 < ctx.delivered then ""
        else "no cursor and no server-recorded delivered offset") = "" ↔
      sub.fresh = true ∨ (startCursor ctx sub snapshot).isSome := by
  unfold startCursor
  cases hfresh : sub.fresh with
  | true => cases snapshot <;> simp
  | false =>
    cases snapshot with
    | some snap => cases hoffset : snap.channelOffsets sub.channel <;> simp [hoffset]
    | none =>
      cases hcursor : offsetFrom sub.cursor with
      | some offset => simp
      | none => by_cases hdelivered : 0 < ctx.delivered <;> simp [hdelivered]

theorem recoverySkip_eq_empty_iff :
    recoverySkip ctx sub snapshot = "" ↔ Passes ctx sub snapshot := by
  unfold recoverySkip
  rw [gate_eq_empty (by decide), gate_eq_empty (by decide), gate_eq_empty (by decide),
    startGate_eq_empty]
  constructor
  · rintro ⟨hrequested, hexact, hpolicy, hstart⟩
    simp only [Bool.or_eq_true, Bool.not_eq_true', not_or, Bool.not_eq_false,
      Bool.not_eq_true] at hrequested hexact hpolicy
    exact ⟨hrequested, hexact, hpolicy.1.1, hpolicy.1.2, hpolicy.2, hstart⟩
  · rintro ⟨hrequested, hexact, hrecovers, hhistory, hdurable, hstart⟩
    refine ⟨by simp [hrequested], by simp [hexact], ?_, hstart⟩
    simp [hrecovers, hhistory, hdurable]

theorem recoverySkip_eq_empty (hrecover : sub.recover = true) (hchannel : sub.channel ≠ "") :
    recoverySkip ctx sub snapshot = "" ↔ Streams ctx sub snapshot := by
  rw [recoverySkip_eq_empty_iff]
  constructor
  · intro h
    exact ⟨hchannel, h.exact, h.recover, h.history, h.durable, h.start⟩
  · intro h
    exact ⟨hrecover, h.exact, h.recover, h.history, h.durable, h.start⟩

theorem recoveryCursor_of_start
    (hstart : sub.fresh = true ∨ (startCursor ctx sub snapshot).isSome) :
    (recoveryCursor ctx sub snapshot).skip = "" ∧
    ((recoveryCursor ctx sub snapshot).epochReset = true ↔ Reset ctx sub snapshot) ∧
    (¬ Reset ctx sub snapshot → (recoveryCursor ctx sub snapshot).sinceOffset =
      (startCursor ctx sub snapshot).elim 0 nextOffset) := by
  unfold recoveryCursor Reset
  unfold startCursor at hstart ⊢
  cases hfresh : sub.fresh with
  | true => simp
  | false =>
    cases snapshot with
    | some snap =>
      obtain ⟨offset, hoffset⟩ : ∃ offset, snap.channelOffsets sub.channel = some offset := by
        simpa [hfresh, Option.isSome_iff_exists] using hstart
      by_cases hdiffers : Differs snap.brokerEpoch ctx.epoch
      · have hif := hdiffers
        unfold Differs at hif
        simp [hif, hdiffers]
      · have hif := hdiffers
        unfold Differs at hif
        simp [hif, hdiffers, hoffset]
    | none =>
      cases hcursor : offsetFrom sub.cursor with
      | some offset => simp
      | none =>
        have hdelivered : 0 < ctx.delivered := by
          simpa [hfresh, hcursor] using hstart
        simp [hdelivered]

theorem recoverLimit_pos (hquota : 0 < quota) : 0 < recoverLimit ctx quota := by
  unfold recoverLimit maxRecoveredPublications
  dsimp only
  split_ifs with hpolicy <;> omega

theorem recoverLimit_eq_zero (hquota : ¬ 0 < quota) : recoverLimit ctx quota = 0 := by
  unfold recoverLimit
  dsimp only
  omega

end Gates

section Outcome

theorem recoverSubscription_of_not_streams (hrecover : sub.recover = true)
    (h : ¬ Streams ctx sub snapshot) :
    ¬ Clean (recoverSubscription ctx sub snapshot quota).complete := by
  intro hclean
  have herror := hclean.error
  by_cases hchannel : sub.channel = ""
  · simp [recoverSubscription, hchannel, hrecover, Replay.complete, finishRecovery] at herror
  · have hskip := (recoverySkip_eq_empty hrecover hchannel).not.mpr h
    simp [recoverSubscription, hchannel, hskip, hrecover, Replay.complete,
      finishRecovery] at herror

theorem recoverSubscription_of_streams (quota : Int) (hrecover : sub.recover = true)
    (h : Streams ctx sub snapshot) :
    ∃ res : ChannelRecovery, recoverSubscription ctx sub snapshot quota =
      if recoverLimit ctx quota = 0 then ⟨[], { res with status := .truncated }, quota⟩
      else
        match ctx.history (recoveryCursor ctx sub snapshot).sinceOffset
          (recoverLimit ctx quota) with
        | .error err => ⟨[], { res with status := .failed, err := some err }, quota⟩
        | .ok page => finishReplay ctx res (recoveryCursor ctx sub snapshot).epochReset
            (recoverLimit ctx quota) quota page := by
  have hskip := (recoverySkip_eq_empty hrecover h.channel).mpr h
  obtain ⟨hcursor, -, -⟩ := recoveryCursor_of_start h.start
  refine ⟨⟨sub.channel, .skipped, (recoveryCursor ctx sub snapshot).cursor,
    (recoveryCursor ctx sub snapshot).curSet, ctx.epoch, none, false, .none, 0⟩, ?_⟩
  simp [recoverSubscription, h.channel, hskip, hcursor]

theorem clean_finishReplay {res : ChannelRecovery} {epochReset : Bool} {limit : Int} :
    Clean (finishReplay ctx res epochReset limit quota page).complete ↔
      epochReset = false ∧ page.gap = false ∧ (page.publications.length : Int) ≠ limit := by
  constructor
  · intro hclean
    have hgap := hclean.gap
    simp only [finishReplay, Replay.complete, finishRecovery, Bool.or_eq_false_iff] at hgap
    have htruncated := hclean.truncated
    refine ⟨hgap.2, hgap.1, fun hfull => ?_⟩
    simp [finishReplay, Replay.complete, finishRecovery, hgap.2, hfull] at htruncated
  · rintro ⟨rfl, hgap, hshort⟩
    constructor <;> simp [finishReplay, Replay.complete, finishRecovery, hgap, hshort]

theorem unreported_of_clean (hrecover : sub.recover = true)
    (hclean : Clean (recoverSubscription ctx sub snapshot quota).complete) :
    ∃ page, Unreported ctx sub snapshot quota page := by
  have hstreams : Streams ctx sub snapshot := by
    by_contra hnot
    exact recoverSubscription_of_not_streams hrecover hnot hclean
  obtain ⟨res, heq⟩ := recoverSubscription_of_streams quota hrecover hstreams
  obtain ⟨-, hreset, hsince⟩ := recoveryCursor_of_start hstreams.start
  by_cases hquota : 0 < quota
  case neg =>
    rw [heq, if_pos (recoverLimit_eq_zero hquota)] at hclean
    simpa [Replay.complete, finishRecovery] using hclean.truncated
  rw [heq, if_neg (recoverLimit_pos hquota).ne'] at hclean
  cases hanswer : ctx.history (recoveryCursor ctx sub snapshot).sinceOffset
      (recoverLimit ctx quota) with
  | error err =>
    rw [hanswer] at hclean
    simpa [Replay.complete, finishRecovery] using hclean.error
  | ok page =>
    rw [hanswer] at hclean
    obtain ⟨hcurrent, hgap, hshort⟩ := clean_finishReplay.mp hclean
    have hnot : ¬ Reset ctx sub snapshot := by
      rw [← hreset, hcurrent]
      exact Bool.false_ne_true
    rw [hsince hnot] at hanswer
    exact ⟨page, hstreams, hquota, hnot, hanswer, hgap, hshort⟩

theorem Unreported.outcome (h : Unreported ctx sub snapshot quota page)
    (hrecover : sub.recover = true) :
    Clean (recoverSubscription ctx sub snapshot quota).complete ∧
      (recoverSubscription ctx sub snapshot quota).sent =
        replay ctx.sends 0 page.publications := by
  obtain ⟨res, heq⟩ := recoverSubscription_of_streams quota hrecover h.streams
  obtain ⟨-, hreset, hsince⟩ := recoveryCursor_of_start h.streams.start
  rw [heq, if_neg (recoverLimit_pos h.budget).ne', hsince h.current, h.answer]
  have hcurrent := Bool.eq_false_iff.mpr (hreset.not.mpr h.current)
  exact ⟨clean_finishReplay.mpr ⟨hcurrent, h.gap, h.short⟩, rfl⟩

end Outcome

section Main
variable {retained : List Publication}

theorem Unreported.mem_iff (h : Unreported ctx sub snapshot quota page)
    (hfaithful : Faithful ctx retained) :
    pub ∈ page.publications ↔
      pub ∈ retained ∧ (startCursor ctx sub snapshot).elim 0 nextOffset ≤ pub.offset := by
  have hlimit : 0 < recoverLimit ctx quota := recoverLimit_pos h.budget
  have hpage := hfaithful _ _ page hlimit h.answer
  have hshort := h.short
  rw [hpage, List.length_take] at hshort
  rw [hpage, List.take_of_length_le (by omega)]
  simp

theorem nextOffset_le {start : Option Nat} (h : Above start pub) :
    start.elim 0 nextOffset ≤ pub.offset := by
  cases start with
  | none => exact Nat.zero_le _
  | some offset => exact (Nat.mod_le _ _).trans (h offset rfl)

/-- A clean `RecoverComplete` means that the client has caught up, exactly for the requests that
are reliable. -/
theorem clean_recovery (hfaithful : Faithful ctx retained) (hrecover : sub.recover = true) :
    (Clean (recoverSubscription ctx sub snapshot quota).complete →
      CaughtUp ctx sub snapshot retained (recoverSubscription ctx sub snapshot quota).sent ∧
        ¬ Outdated ctx sub snapshot) ↔ Reliable ctx sub snapshot quota := by
  constructor
  · intro h page hpage
    obtain ⟨hclean, hsent⟩ := hpage.outcome hrecover
    obtain ⟨hcaught, hepoch⟩ := h hclean
    refine ⟨hepoch, fun pub hpub hcurrent habove => ?_⟩
    rw [← mem_replay_zero, ← hsent]
    exact hcaught pub ((hpage.mem_iff hfaithful).mp hpub).1 hcurrent habove
  · intro hreliable hclean
    obtain ⟨page, hpage⟩ := unreported_of_clean hrecover hclean
    obtain ⟨-, hsent⟩ := hpage.outcome hrecover
    obtain ⟨hepoch, hreached⟩ := hreliable page hpage
    refine ⟨fun pub hpub hcurrent habove => ?_, hepoch⟩
    rw [hsent, mem_replay_zero]
    exact hreached pub ((hpage.mem_iff hfaithful).mpr ⟨hpub, nextOffset_le habove⟩) hcurrent habove

end Main

section Memory

open MemoryBroker (retained)

def memoryContext (cfg : MemoryBroker.Config) (s : MemoryBroker.State) (policy : ChannelPolicy)
    (delivered : Nat) (sends : Nat → Bool) : Context where
  epoch := cfg.epoch
  history since limit := .ok (MemoryBroker.history s since limit)
  policy := policy
  delivered := delivered
  sends := sends

theorem faithful_memoryContext (cfg : MemoryBroker.Config) (s : MemoryBroker.State)
    (policy : ChannelPolicy) (delivered : Nat) (sends : Nat → Bool) :
    Faithful (memoryContext cfg s policy delivered sends) (retained s) := by
  intro since limit page hlimit hpage
  obtain rfl := Except.ok.inj hpage
  unfold MemoryBroker.history retained
  cases s.history.bind (s.rings[·]?) with
  | none => by_cases hsince : 0 < since <;> simp [HistoryPage.empty, hsince]
  | some h =>
    cases hlist : h.ring.toList with
    | nil => by_cases hsince : 0 < since <;> simp [HistoryPage.empty, hsince, hlist]
    | cons oldest rest => simp [hlist, not_le.mpr hlimit]

end Memory

section Runs

open MemoryBroker (message retained room)

def publishTwo : List MemoryBroker.Action :=
  [.subscribe, .publish (message "p1"), .call 0, .call 0, .call 0, .publish (message "p2"),
    .call 1, .call 1]

def fromZero (epoch : String) : Subscription :=
  ⟨"room", true, false, some ⟨epoch, some 0⟩⟩

def reading (s : MemoryBroker.State) (sends : Nat → Bool) : Context :=
  memoryContext room s defaultChannelPolicy 0 sends

theorem clean_recovery_published :
    ∃ s, MemoryBroker.run room .start publishTwo = some s ∧
      (recoverSubscription (reading s fun _ => true) (fromZero "e1") none
        1000).sent.map Publication.id = ["p1", "p2"] ∧
      ((Clean (recoverSubscription (reading s fun _ => true)
          (fromZero "e1") none 1000).complete →
        CaughtUp (reading s fun _ => true) (fromZero "e1") none (retained s)
          (recoverSubscription (reading s fun _ => true) (fromZero "e1") none
            1000).sent ∧
        ¬ Outdated (reading s fun _ => true) (fromZero "e1") none) ↔
      Reliable (reading s fun _ => true) (fromZero "e1") none 1000) :=
  ⟨_, rfl, rfl, clean_recovery (faithful_memoryContext room _ defaultChannelPolicy 0 _) rfl⟩

/-- The second send fails and the client is told that it has caught up. With a cursor of another
epoch it is told the same. -/
theorem clean_recovery_misses :
    ∃ s, MemoryBroker.run room .start publishTwo = some s ∧
      (Faithful (reading s (· ≠ 1)) (retained s) ∧
        Clean (recoverSubscription (reading s (· ≠ 1)) (fromZero "e1") none
          1000).complete ∧
        ¬ CaughtUp (reading s (· ≠ 1)) (fromZero "e1") none (retained s)
          (recoverSubscription (reading s (· ≠ 1)) (fromZero "e1") none
            1000).sent) ∧
      Clean (recoverSubscription (reading s fun _ => true) (fromZero "e0") none
        1000).complete ∧
      Outdated (reading s fun _ => true) (fromZero "e0") none := by
  refine ⟨_, rfl, ⟨faithful_memoryContext room _ defaultChannelPolicy 0 _, ⟨rfl, rfl, rfl⟩, ?_⟩,
    ⟨rfl, rfl, rfl⟩, .inl ⟨⟨"e0", some 0⟩, rfl, by decide⟩⟩
  intro hcaught
  have hsent := hcaught ⟨"room", "p2", "", 2, "e1", 0⟩ (by decide) rfl
    (fun offset hoffset => by
      cases hoffset
      decide)
  exact absurd hsent (by decide)

end Runs

end MessageLoop.Recover
