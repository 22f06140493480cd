import MessageLoop.Redis.History
import MessageLoop.Runtime.Recover

/-!
The recoveries of one connect or subscribe request (`internal/runtime/recover.go`): the channels are
replayed one after the other out of a shared quota, each from what its broker retains.
-/

namespace MessageLoop.Recover

open Broker Channel List MemoryBroker

/-- What answers a history read: either broker, or one whose read fails. -/
inductive Store where
  | memory (s : MemoryBroker.State)
  | redis (s : Redis.History.State Publication)
  | failing (err : String)

def fromRedis (pub : Redis.Publication Publication) : Publication :=
  { pub.content with channel := pub.channel, offset := pub.offset.toNat }

def Store.history (channel : String) (since : Nat) (limit : Int) :
    Store → Except String HistoryPage
  | .memory s => .ok (MemoryBroker.history s since limit)
  | .redis s =>
    let page := Redis.History.getHistory s channel (.ofNat since) limit
    .ok ⟨page.publications.map fromRedis, page.truncated, page.gap, page.gapReason,
      page.firstRetained.toNat⟩
  | .failing err => .error err

structure Found where
  store : Store
  delivered : Nat
  sends : Nat → Bool

/-- What a request finds: the broker's epoch, the channel policies and, for each of its
subscriptions, the state of the channel. -/
structure Request where
  epoch : String
  policy : String → ChannelPolicy
  found : Nat → Found

def Request.context (req : Request) (k : Nat) (channel : String) : Context where
  epoch := req.epoch
  history since limit := (req.found k).store.history channel since limit
  policy := req.policy channel
  delivered := (req.found k).delivered
  sends := (req.found k).sends

inductive RecoverState where
  | none
  | pending
  | skipped
  deriving DecidableEq, Repr

inductive Frame where
  | publication (channel : String) (pub : Publication)
  | complete (complete : RecoverComplete)
  deriving DecidableEq, Repr

section Source
variable (req : Request) (snapshot : Option ResumeSnapshot)

def recoveryOf (k : Nat) (sub : Subscription) (quota : Int) : Replay :=
  recoverSubscription (req.context k sub.channel) sub snapshot quota

/-- What that recovery sends: its publications and, at the end, its `RecoverComplete`. Frames carry
the position of their subscription. -/
def recoveryFrames (k : Nat) (sub : Subscription) (quota : Int) : List (Nat × Frame) :=
  (recoveryOf req snapshot k sub quota).sent.map (fun pub => (k, .publication sub.channel pub)) ++
    [(k, .complete (recoveryOf req snapshot k sub quota).complete)]

def streamFrom : Nat → Int → List Subscription → List (Nat × Frame)
  | _, _, [] => []
  | k, quota, sub :: rest =>
    if sub.recover then
      recoveryFrames req snapshot k sub quota ++
        streamFrom (k + 1) (recoveryOf req snapshot k sub quota).quota rest
    else streamFrom (k + 1) quota rest

def streamRecoveries (subs : List Subscription) : List (Nat × Frame) :=
  streamFrom req snapshot 0 maxRecoveredPublications subs

def recoverState (subs : List Subscription) : RecoverState :=
  if !subs.any (·.recover) then .none
  else if subs.zipIdx.any fun sk =>
      sk.1.recover && recoverySkip (req.context sk.2 sk.1.channel) sk.1 snapshot = "" then .pending
  else .skipped

end Source

/-- The entries of a history from an offset on, oldest first, each with whether its position fits
an offset. -/
def Store.entries (channel : String) (since : Nat) : Store → List (Publication × Bool)
  | .memory s => ((retained s).filter (since ≤ ·.offset)).map (·, true)
  | .redis s =>
    (s.stream.filter ((Redis.streamStartID (.ofNat since)).rank ≤ ·.id.rank)).map fun e =>
      (fromRedis (Redis.entryPublication channel e), decide e.id.Representable)
  | .failing _ => []

section Stores
variable {store : Store} {channel : String} {since : Nat} {limit : Int} {page : HistoryPage}

theorem Store.publications_eq (h : store.history channel since limit = .ok page)
    (hlimit : 0 < limit) :
    page.publications = ((store.entries channel since).map Prod.fst).take limit.toNat := by
  cases store with
  | memory s =>
    have hfaithful := faithful_memoryContext MemoryBroker.room s defaultChannelPolicy 0 fun _ => true
    rw [hfaithful since limit page hlimit h, entries, map_map]
    simp [Function.comp_def]
  | redis s =>
    obtain rfl := Except.ok.inj h
    simp [entries, Redis.History.getHistory, Redis.xrangeN, not_le.mpr hlimit, Function.comp_def,
      map_take]
  | failing err => cases h

theorem Store.entries_failing {err : String} (h : store.history channel since limit = .error err) :
    store.entries channel since = [] := by
  cases store with
  | memory s => cases h
  | redis s => cases h
  | failing err => rfl

theorem Store.since_le (hsince : since < 2 ^ 64) :
    ∀ e ∈ store.entries channel since, e.2 = true → since ≤ e.1.offset := by
  intro e he hfits
  cases store with
  | memory s =>
    obtain ⟨pub, hpub, rfl⟩ := mem_map.mp he
    simpa using (mem_filter.mp hpub).2
  | redis s =>
    obtain ⟨entry, hentry, rfl⟩ := mem_map.mp he
    have hle := (Redis.startID_le_iff (of_decide_eq_true hfits) (.ofNat since)).mp
      (of_decide_eq_true (mem_filter.mp hentry).2)
    rw [UInt64.le_iff_toNat_le, UInt64.toNat_ofNat_of_lt' hsince] at hle
    exact hle
  | failing err => cases he

end Stores

theorem recoverSubscription_frame (ctx : Context) (sub : Subscription)
    (snapshot : Option ResumeSnapshot) (quota : Int) :
    (recoverSubscription ctx sub snapshot quota).quota =
      quota - (recoverSubscription ctx sub snapshot quota).sent.length ∧
    (recoverSubscription ctx sub snapshot quota).complete.channel = sub.channel := by
  unfold recoverSubscription
  dsimp only
  generalize (if recoverySkip ctx sub snapshot = "" ∧ (recoveryCursor ctx sub snapshot).skip ≠ ""
    then (recoveryCursor ctx sub snapshot).skip else recoverySkip ctx sub snapshot) = skip
  split
  · exact ⟨by simp, rfl⟩
  split
  · exact ⟨by simp, rfl⟩
  split
  · exact ⟨by simp, rfl⟩
  split
  · exact ⟨by simp, rfl⟩
  · exact ⟨rfl, rfl⟩

section Sent
variable (ctx : Context) (quota : Int)

theorem recoverLimit_nonneg : 0 ≤ recoverLimit ctx quota :=
  le_max_left 0 _

theorem recoverLimit_le_quota {quota : Int} (hquota : 0 ≤ quota) : recoverLimit ctx quota ≤ quota := by
  unfold recoverLimit
  dsimp only
  omega

theorem recoverLimit_eq {quota : Int} (hquota : 0 ≤ quota) (hmax : quota ≤ maxRecoveredPublications) :
    recoverLimit ctx quota = min (recoverLimit ctx maxRecoveredPublications) quota := by
  unfold recoverLimit
  dsimp only
  omega

end Sent

def replayed (frames : List (Nat × Frame)) : List (String × Publication) :=
  frames.filterMap fun frame =>
    match frame.2 with
    | .publication channel pub => some (channel, pub)
    | .complete _ => none

section Request
variable (req : Request) (snapshot : Option ResumeSnapshot)
variable {k : Nat} {sub : Subscription} {quota : Int} {subs : List Subscription} {channel : String}

/-- What a subscription replays without the limits: nothing if a gate stops it, otherwise what is
retained from its cursor on, up to a failing send. -/
def replayable (k : Nat) (sub : Subscription) : List Publication :=
  if sub.channel ≠ "" ∧ recoverySkip (req.context k sub.channel) sub snapshot = "" then
    replay (req.found k).sends 0 (((req.found k).store.entries sub.channel
      (recoveryCursor (req.context k sub.channel) sub snapshot).sinceOffset).map Prod.fst)
  else []

theorem sent_eq (k : Nat) (sub : Subscription) (quota : Int) :
    (recoveryOf req snapshot k sub quota).sent =
      (replayable req snapshot k sub).take (recoverLimit (req.context k sub.channel) quota).toNat := by
  have hnonneg := recoverLimit_nonneg (req.context k sub.channel) quota
  unfold replayable
  split_ifs with hgates
  case neg =>
    rw [take_nil, recoveryOf, recoverSubscription]
    by_cases hchannel : sub.channel = ""
    · simp [hchannel]
    · simp [hchannel, not_and.mp hgates hchannel]
  obtain ⟨hchannel, hskip⟩ := hgates
  have hpasses := recoverySkip_eq_empty_iff.mp hskip
  obtain ⟨res, heq⟩ := recoverSubscription_of_streams quota hpasses.requested
    ((recoverySkip_eq_empty hpasses.requested hchannel).mp hskip)
  rw [recoveryOf, heq, ← replay_take]
  split_ifs with hlimit
  · rw [hlimit, Int.toNat_zero, take_zero]
    rfl
  · split
    · rename_i herr
      rw [Store.entries_failing herr]
      simp [replay]
    · rename_i page hpage
      rw [← Store.publications_eq hpage (by omega)]
      rfl

theorem length_sent_le (k : Nat) (sub : Subscription) (quota : Int) :
    (recoveryOf req snapshot k sub quota).sent.length ≤
      recoverLimit (req.context k sub.channel) quota := by
  have hnonneg := recoverLimit_nonneg (req.context k sub.channel) quota
  rw [sent_eq, length_take]
  omega

theorem fst_of_mem_recoveryFrames {frame : Nat × Frame}
    (h : frame ∈ recoveryFrames req snapshot k sub quota) : frame.1 = k := by
  rcases mem_append.mp h with hsent | hcomplete
  · obtain ⟨pub, -, rfl⟩ := mem_map.mp hsent
    rfl
  · rw [mem_singleton.mp hcomplete]

theorem fst_of_mem_streamFrom {frame : Nat × Frame}
    (h : frame ∈ streamFrom req snapshot k quota subs) :
    k ≤ frame.1 ∧ frame.1 < k + subs.length := by
  induction subs generalizing k quota with
  | nil => cases h
  | cons sub rest ih =>
    rw [length_cons]
    rw [streamFrom] at h
    split_ifs at h
    · rcases mem_append.mp h with hfirst | hrest
      · have heq := fst_of_mem_recoveryFrames req snapshot hfirst
        omega
      · have hbounds := ih hrest
        omega
    · have hbounds := ih h
      omega

theorem filter_recoveryFrames_of_ne {i : Nat} (hne : k ≠ i) (sub : Subscription) (quota : Int) :
    (recoveryFrames req snapshot k sub quota).filter (·.1 = i) = [] := by
  rw [filter_eq_nil_iff]
  intro frame hframe
  rw [fst_of_mem_recoveryFrames req snapshot hframe]
  simpa using hne

theorem filter_streamFrom {i : Nat} (k : Nat) (quota : Int) (hsub : subs[i]? = some sub) :
    ∃ left, (streamFrom req snapshot k quota subs).filter (·.1 = k + i) =
      if sub.recover then recoveryFrames req snapshot (k + i) sub left else [] := by
  induction subs generalizing k quota i with
  | nil => cases hsub
  | cons first rest ih =>
    cases i with
    | zero =>
      obtain rfl : first = sub := Option.some.inj hsub
      have hrest : ∀ left, (streamFrom req snapshot (k + 1) left rest).filter (·.1 = k) = [] := by
        intro left
        rw [filter_eq_nil_iff]
        intro frame hframe
        have hle := (fst_of_mem_streamFrom req snapshot hframe).1
        simp only [decide_eq_true_eq]
        omega
      refine ⟨quota, ?_⟩
      cases hrecover : first.recover with
      | false => simpa [streamFrom, hrecover] using hrest quota
      | true =>
        have hown : (recoveryFrames req snapshot k first quota).filter (·.1 = k) =
            recoveryFrames req snapshot k first quota := by
          rw [filter_eq_self]
          intro frame hframe
          simpa using fst_of_mem_recoveryFrames req snapshot hframe
        simp [streamFrom, hrecover, hown, hrest]
    | succ i =>
      have hshift : k + (i + 1) = k + 1 + i := by omega
      rw [hshift]
      cases hrecover : first.recover with
      | false =>
        rw [streamFrom, hrecover]
        exact ih (k + 1) quota hsub
      | true =>
        obtain ⟨left, hleft⟩ := ih (k + 1) (recoveryOf req snapshot k first quota).quota hsub
        refine ⟨left, ?_⟩
        rw [streamFrom, if_pos hrecover, filter_append,
          filter_recoveryFrames_of_ne req snapshot (by omega), nil_append, hleft]

theorem replayed_recoveryFrames (k : Nat) (sub : Subscription) (quota : Int) :
    replayed (recoveryFrames req snapshot k sub quota) =
      (recoveryOf req snapshot k sub quota).sent.map fun pub => (sub.channel, pub) := by
  simp [replayed, recoveryFrames, filterMap_append, filterMap_map]

theorem replayed_append (frames others : List (Nat × Frame)) :
    replayed (frames ++ others) = replayed frames ++ replayed others :=
  filterMap_append ..

theorem replayed_streamFrom_cons (hrecover : sub.recover = true) (k : Nat) (quota : Int)
    (rest : List Subscription) :
    replayed (streamFrom req snapshot k quota (sub :: rest)) =
      (recoveryOf req snapshot k sub quota).sent.map (fun pub => (sub.channel, pub)) ++
        replayed (streamFrom req snapshot (k + 1) (recoveryOf req snapshot k sub quota).quota
          rest) := by
  rw [streamFrom, if_pos hrecover, replayed_append, replayed_recoveryFrames]

theorem length_replayed_le (hquota : 0 ≤ quota) (k : Nat) (subs : List Subscription) :
    (replayed (streamFrom req snapshot k quota subs)).length ≤ quota := by
  induction subs generalizing k quota with
  | nil => simpa [streamFrom, replayed] using hquota
  | cons sub rest ih =>
    cases hrecover : sub.recover with
    | false =>
      rw [streamFrom, hrecover]
      exact ih hquota (k + 1)
    | true =>
      rw [replayed_streamFrom_cons req snapshot hrecover, length_append, length_map]
      have hsent := length_sent_le req snapshot k sub quota
      have hlimit := recoverLimit_le_quota (req.context k sub.channel) hquota
      obtain ⟨hleft, -⟩ :=
        recoverSubscription_frame (req.context k sub.channel) sub snapshot quota
      rw [← recoveryOf] at hleft
      have hrest := ih (by omega : 0 ≤ (recoveryOf req snapshot k sub quota).quota) (k + 1)
      omega

/-- How many publications a subscription finds, its policy's limit applied. -/
def finds (k : Nat) (sub : Subscription) : Nat :=
  min (replayable req snapshot k sub).length
    (recoverLimit (req.context k sub.channel) maxRecoveredPublications).toNat

/-- How many of the first `maxRecoveredPublications` of what the subscriptions find one after the
other are of the channel, if `used` have been found before. -/
def share (channel : String) : Nat → Nat → List Subscription → Nat
  | _, _, [] => 0
  | k, used, sub :: rest =>
    let next := used + finds req snapshot k sub
    (if sub.channel = channel then
      min maxRecoveredPublications next - min maxRecoveredPublications used else 0) +
      share channel (k + 1) next rest

theorem filter_map_channel_of_ne {other : String} (hne : channel ≠ other)
    (pubs : List Publication) : (pubs.map fun pub => (channel, pub)).filter (·.1 = other) = [] := by
  rw [filter_eq_nil_iff]
  exact forall_mem_map.mpr fun _ _ => by simpa using hne

theorem filter_map_channel (channel : String) (pubs : List Publication) :
    (pubs.map fun pub => (channel, pub)).filter (·.1 = channel) =
      pubs.map fun pub => (channel, pub) := by
  rw [filter_eq_self]
  exact forall_mem_map.mpr fun _ _ => decide_eq_true rfl

theorem finds_eq_zero (hrecover : sub.recover = false) (k : Nat) :
    finds req snapshot k sub = 0 := by
  simp [finds, replayable, recoverySkip, hrecover]

theorem length_sent {used : Nat} (k : Nat) (sub : Subscription)
    (hquota : quota = maxRecoveredPublications - min maxRecoveredPublications used) :
    (recoveryOf req snapshot k sub quota).sent.length =
      min maxRecoveredPublications (used + finds req snapshot k sub) -
        min maxRecoveredPublications used := by
  rw [sent_eq, length_take, recoverLimit_eq _ (by omega) (by omega), finds]
  omega

theorem length_channel (channel : String) (k : Nat) {used : Nat}
    (hquota : quota = maxRecoveredPublications - min maxRecoveredPublications used)
    (subs : List Subscription) :
    ((replayed (streamFrom req snapshot k quota subs)).filter (·.1 = channel)).length =
      share req snapshot channel k used subs := by
  induction subs generalizing k quota used with
  | nil => rfl
  | cons sub rest ih =>
    rw [share]
    cases hrecover : sub.recover with
    | false =>
      rw [streamFrom, hrecover, finds_eq_zero req snapshot hrecover]
      simpa using ih (k + 1) hquota
    | true =>
      obtain ⟨hleft, -⟩ := recoverSubscription_frame (req.context k sub.channel) sub snapshot quota
      rw [← recoveryOf] at hleft
      have hsent := length_sent req snapshot k sub hquota
      have hnext : (recoveryOf req snapshot k sub quota).quota = maxRecoveredPublications -
          min maxRecoveredPublications (used + finds req snapshot k sub) := by omega
      rw [replayed_streamFrom_cons req snapshot hrecover, filter_append, length_append,
        ih (k + 1) hnext]
      by_cases hchannel : sub.channel = channel
      · subst hchannel
        rw [filter_map_channel, length_map, if_pos rfl, hsent]
      · rw [filter_map_channel_of_ne hchannel, length_nil, if_neg hchannel]

theorem any_passes_iff (subs : List Subscription) :
    (subs.zipIdx.any fun sk =>
      sk.1.recover && recoverySkip (req.context sk.2 sk.1.channel) sk.1 snapshot = "") = true ↔
      ∃ k sub, subs[k]? = some sub ∧ Passes (req.context k sub.channel) sub snapshot := by
  simp only [any_eq_true, Bool.and_eq_true, decide_eq_true_eq, recoverySkip_eq_empty_iff]
  constructor
  · rintro ⟨⟨sub, k⟩, hmem, -, hpasses⟩
    exact ⟨k, sub, mem_zipIdx_iff_getElem?.mp hmem, hpasses⟩
  · rintro ⟨k, sub, hsub, hpasses⟩
    exact ⟨(sub, k), mem_zipIdx_iff_getElem?.mpr hsub, hpasses.requested, hpasses⟩

theorem recoverState_iff (subs : List Subscription) :
    (recoverState req snapshot subs = .pending ↔
      ∃ k sub, subs[k]? = some sub ∧ Passes (req.context k sub.channel) sub snapshot) ∧
    (recoverState req snapshot subs = .skipped ↔
      (∃ sub ∈ subs, sub.recover = true) ∧
        ¬ ∃ k sub, subs[k]? = some sub ∧ Passes (req.context k sub.channel) sub snapshot) := by
  have hasks : subs.any (·.recover) = true ↔ ∃ sub ∈ subs, sub.recover = true := by simp
  have hpasses := any_passes_iff req snapshot subs
  by_cases hpass : ∃ k sub, subs[k]? = some sub ∧ Passes (req.context k sub.channel) sub snapshot
  · obtain ⟨k, sub, hsub, hgates⟩ := id hpass
    have hask := hasks.mpr ⟨sub, mem_of_getElem? hsub, hgates.requested⟩
    have hstate : recoverState req snapshot subs = .pending := by
      rw [recoverState, hask, hpasses.mpr hpass]
      rfl
    simp [hstate, hpass]
  · have hnone := Bool.eq_false_iff.mpr (hpasses.not.mpr hpass)
    by_cases hask : ∃ sub ∈ subs, sub.recover = true
    · have hstate : recoverState req snapshot subs = .skipped := by
        rw [recoverState, hasks.mpr hask, hnone]
        rfl
      simp only [hstate, hpass, hask, not_false_eq_true, and_self, iff_false]
      exact ⟨nofun, trivial⟩
    · have hstate : recoverState req snapshot subs = .none := by
        rw [recoverState, Bool.eq_false_iff.mpr (hasks.not.mpr hask)]
        rfl
      simp only [hstate, hpass, hask, false_and, iff_false]
      exact ⟨nofun, nofun⟩

end Request

section Main
variable {req : Request} {snapshot : Option ResumeSnapshot}

def single (s : MemoryBroker.State) : Request where
  epoch := "e1"
  policy _ := { defaultChannelPolicy with recoverLimit := 1 }
  found _ := ⟨.memory s, 0, fun _ => true⟩

def after (offset : Nat) : Subscription :=
  ⟨"room", true, false, some ⟨"e1", some offset⟩⟩

theorem offset_after {ctx : Context} (offset : Nat) :
    startCursor ctx (after offset) none = some offset :=
  rfl

end Main

end MessageLoop.Recover
