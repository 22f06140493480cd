import MessageLoop.Lib.RingBuffer
import MessageLoop.Lib.Transition
import MessageLoop.Stream.Broker
import MessageLoop.Topics

/-!
History of one channel of the in-process broker (`internal/stream/broker_memory.go`).

`Publish` looks its ring up under the broker's lock, creates it under the write lock if there is
none, and writes it under the ring's own lock; these are separate steps of a call. `Subscribe`,
`Unsubscribe` and `History` are one step each. The delivery of a publication to the node's handler
is left out.
-/

namespace MessageLoop.MemoryBroker

open Broker Topics List

structure Config where
  channel : String
  epoch : String
  historySize : Nat
  historySize_pos : 0 < historySize

/-- The ring of a channel; `nextOff` is the last offset assigned. -/
structure ChannelHistory where
  ring : RingBuffer Publication
  nextOff : Nat

/-- A `Publish` before it has looked for the ring, before it creates one, with the ring it has
found, and with the offset it returns. -/
inductive Pc where
  | lookup
  | create
  | write (ref : Nat)
  | returned (offset : Option Nat)
  deriving DecidableEq, Repr

def Pc.offset : Pc → Option Nat
  | .returned offset => offset
  | _ => none

structure Call where
  pub : Publication
  pc : Pc
  deriving DecidableEq, Repr

/-- `rings` are all ring objects ever made, `history` is the one the broker has for the channel.
`accepted` keeps the stored publications in the order of their writes, each with its call. -/
structure State where
  rings : List ChannelHistory
  history : Option Nat
  subs : Nat
  wcCounts : Nat
  calls : List Call
  accepted : List (Nat × Publication)

inductive Action where
  | publish (pub : Publication)
  | call (k : Nat)
  | subscribe
  | unsubscribe
  deriving DecidableEq, Repr

section Steps
variable (cfg : Config)

def capacity (pub : Publication) : Nat :=
  if 0 < pub.historySize then pub.historySize.toNat else cfg.historySize

theorem capacity_pos (pub : Publication) : 0 < capacity cfg pub := by
  unfold capacity
  split_ifs with hsize
  · omega
  · exact cfg.historySize_pos

def newHistory (pub : Publication) : ChannelHistory :=
  ⟨.empty (capacity cfg pub) (capacity_pos cfg pub), 0⟩

def stored (pub : Publication) (offset : Nat) : Publication :=
  { pub with channel := cfg.channel, offset := offset, epoch := cfg.epoch }

def State.goto (s : State) (k : Nat) (c : Call) (pc : Pc) : State :=
  { s with calls := s.calls.set k { c with pc := pc } }

def proceed (s : State) (k : Nat) (c : Call) : Option State :=
  match c.pc with
  | .lookup =>
    match s.history with
    | some ref => some (s.goto k c (.write ref))
    | none => some (s.goto k c .create)
  | .create =>
    match s.history with
    | some ref => some (s.goto k c (.write ref))
    | none => some { s.goto k c (.write s.rings.length) with
        rings := s.rings ++ [newHistory cfg c.pub]
        history := some s.rings.length }
  | .write ref =>
    s.rings[ref]?.map fun h =>
      let pub := stored cfg c.pub (h.nextOff + 1)
      { s.goto k c (.returned (some (h.nextOff + 1))) with
        rings := s.rings.set ref ⟨h.ring.push pub, h.nextOff + 1⟩
        accepted := s.accepted ++ [(k, pub)] }
  | .returned _ => none

/-- The ring that an `Unsubscribe` would reclaim: that of a channel without subscribers which has
never been written. -/
def reclaims (s : State) : Option Nat :=
  s.history.filter fun ref =>
    ¬ isWildcard cfg.channel ∧ s.subs ≤ 1 ∧
      s.rings[ref]?.any fun h => h.ring.count = 0 ∧ h.nextOff = 0

def unsubscribe (s : State) : State :=
  if isWildcard cfg.channel then { s with wcCounts := s.wcCounts - 1 }
  else { s with
    subs := s.subs - 1
    history := if (reclaims cfg s).isSome then none else s.history }

/-- A key that does not compile is refused before anything changes. -/
def subscribe (s : State) : State :=
  match compileInterest cfg.channel with
  | .error _ => s
  | .ok _ =>
    if isWildcard cfg.channel then { s with wcCounts := s.wcCounts + 1 }
    else { s with subs := s.subs + 1 }

def step (s : State) : Action → Option State
  | .publish pub => some { s with
      calls := s.calls ++ [⟨pub, if validTopic cfg.channel then .lookup else .returned none⟩] }
  | .call k => s.calls[k]?.bind (proceed cfg s k)
  | .subscribe => some (subscribe cfg s)
  | .unsubscribe => some (unsubscribe cfg s)

abbrev run : State → List Action → Option State :=
  Transition.run (step cfg)

end Steps

def State.start : State :=
  ⟨[], none, 0, 0, [], []⟩

/-- A page of the channel's history: the entries from `sinceOffset` on, at most `limit` of them. -/
def history (s : State) (sinceOffset : Nat) (limit : Int) : HistoryPage :=
  match s.history.bind (s.rings[·]?) with
  | none =>
    if 0 < sinceOffset then { HistoryPage.empty with gap := true, gapReason := .emptyExpired }
    else .empty
  | some h =>
    let limit := if limit ≤ 0 then defaultHistoryLimit else limit.toNat
    match h.ring.toList with
    | [] =>
      if 0 < sinceOffset then { HistoryPage.empty with gap := true, gapReason := .emptyExpired }
      else .empty
    | oldest :: _ =>
      let trimmed := 0 < sinceOffset ∧ sinceOffset < oldest.offset
      let publications := (h.ring.toList.filter (sinceOffset ≤ ·.offset)).take limit
      { publications := publications
        truncated := publications.length = limit
        gap := trimmed
        gapReason := if trimmed then .headTrimmed else .none
        firstRetained := oldest.offset }

section Property

def State.returned (s : State) (k : Nat) : Option Nat :=
  s.calls[k]?.bind (·.pc.offset)

/-- The call that has returned `off` is the `off`-th to have written. -/
def Dense (s : State) : Prop :=
  ∀ k off, s.returned k = some off ↔ 0 < off ∧ s.accepted[off - 1]?.map Prod.fst = some k

/-- What a call has published is in the history until the ring could have been filled again. The
ring has the size that one of the publications asked for. -/
def Retained (cfg : Config) (s : State) : Prop :=
  ∀ k c off, s.calls[k]? = some c → s.returned k = some off →
    ∃ h, s.history.bind (s.rings[·]?) = some h ∧ (∃ d ∈ s.calls, h.ring.size = capacity cfg d.pub) ∧
      (s.accepted.length < off + h.ring.size →
        ∀ limit : Int, (0 < limit → h.ring.size ≤ limit) →
          stored cfg c.pub off ∈ (history s 0 limit).publications)

/-- No ring is reclaimed under a `Publish` that is going to write it, and none is larger than the
default limit of a history read. -/
def Undisturbed (cfg : Config) (s : State) : Action → Prop
  | .unsubscribe => ∀ ref ∈ reclaims cfg s, ∀ c ∈ s.calls, c.pc ≠ .write ref
  | .publish pub => capacity cfg pub ≤ defaultHistoryLimit
  | _ => True

instance (cfg : Config) (s : State) (a : Action) : Decidable (Undisturbed cfg s a) := by
  unfold Undisturbed
  split <;> infer_instance

end Property

section Log
variable {cfg : Config} {s : State} {k : Nat} {c : Call}

theorem returned_goto (hk : s.calls[k]? = some c) (pc : Pc) (j : Nat) :
    (s.goto k c pc).returned j = if j = k then pc.offset else s.returned j := by
  have hlt := (List.getElem?_eq_some_iff.mp hk).1
  unfold State.returned State.goto
  split_ifs with hj
  · rw [hj, getElem?_set_self hlt, Option.bind_some]
  · rw [getElem?_set_ne (Ne.symm hj)]

theorem returned_of_pc (hk : s.calls[k]? = some c) : s.returned k = c.pc.offset := by
  rw [State.returned, hk, Option.bind_some]

theorem pubs_goto (hk : s.calls[k]? = some c) (pc : Pc) :
    (s.goto k c pc).calls.map Call.pub = s.calls.map Call.pub := by
  obtain ⟨hlt, rfl⟩ := List.getElem?_eq_some_iff.mp hk
  have hset := set_getElem_self (show k < (s.calls.map Call.pub).length by rwa [length_map])
  rw [getElem_map] at hset
  rw [State.goto, map_set]
  exact hset

/-- The log is that of the calls that have returned: the offsets they got and what they stored. -/
structure Logged (cfg : Config) (s : State) : Prop where
  dense : Dense s
  stored : ∀ i k pub, s.accepted[i]? = some (k, pub) →
    ∃ src, (s.calls.map Call.pub)[k]? = some src ∧ pub = stored cfg src (i + 1)

theorem Logged.goto (h : Logged cfg s) (hk : s.calls[k]? = some c) (hc : c.pc.offset = none)
    {pc : Pc} (hpc : pc.offset = none) : Logged cfg (s.goto k c pc) := by
  have hsame : (s.goto k c pc).returned = s.returned := by
    funext j
    rw [returned_goto hk]
    split_ifs with hj
    · rw [hj, returned_of_pc hk, hc, hpc]
    · rfl
  constructor
  · intro j off
    rw [hsame]
    exact h.dense j off
  · rw [pubs_goto hk]
    exact h.stored

theorem Logged.write (h : Logged cfg s) (hk : s.calls[k]? = some c) (hc : c.pc.offset = none)
    (rings : List ChannelHistory) :
    Logged cfg { s.goto k c (.returned (some (s.accepted.length + 1))) with
      rings := rings
      accepted := s.accepted ++ [(k, MemoryBroker.stored cfg c.pub (s.accepted.length + 1))] } := by
  constructor
  · intro j off
    have hold := h.dense j off
    change (s.goto k c _).returned j = some off ↔
      0 < off ∧ (s.accepted ++ [_])[off - 1]?.map Prod.fst = some j
    rw [returned_goto hk, getElem?_snoc]
    split_ifs with hj hlast hlast
    · simp only [Pc.offset, Option.some.injEq, Option.map_some, hj, and_true]
      omega
    · -- before its write the call had no offset
      rw [← hold, hj, returned_of_pc hk, hc]
      simp only [Pc.offset, Option.some.injEq, reduceCtorEq, iff_false]
      omega
    · rw [hold, hlast, getElem?_eq_none le_rfl]
      simp [Ne.symm hj]
    · exact hold
  · intro i j pub hi
    rw [pubs_goto hk]
    rw [getElem?_snoc] at hi
    split_ifs at hi with hlast
    · cases hi
      exact ⟨c.pub, by rw [getElem?_map, hk, Option.map_some], by rw [hlast]⟩
    · exact h.stored i j pub hi

theorem Logged.publish (h : Logged cfg s) {pub : Publication} {pc : Pc} (hpc : pc.offset = none) :
    Logged cfg { s with calls := s.calls ++ [⟨pub, pc⟩] } := by
  constructor
  · intro k off
    rw [← h.dense k off, State.returned, getElem?_snoc]
    split_ifs with hk
    · rw [State.returned, hk, getElem?_eq_none le_rfl]
      simp [hpc]
    · rfl
  · intro i k src hi
    obtain ⟨orig, hget, hstored⟩ := h.stored i k src hi
    refine ⟨orig, ?_, hstored⟩
    rw [map_append, getElem?_append_left (List.getElem?_eq_some_iff.mp hget).1]
    exact hget

end Log

section Invariant

/-- The ring of the channel has taken all publications that were accepted. -/
structure Holds (cfg : Config) (s : State) (ref : Nat) (h : ChannelHistory) : Prop where
  ring : s.rings[ref]? = some h
  nextOff : h.nextOff = s.accepted.length
  records : h.ring.Records (s.accepted.map Prod.snd)
  size : h.ring.size ∈ (s.calls.map Call.pub).map (capacity cfg)

/-- While no ring is lost there is only one: the ring of the channel has everything accepted, and
every `Publish` that has found a ring has found this one. -/
structure Inv (cfg : Config) (s : State) : Prop where
  logged : Logged cfg s
  pending : ∀ pub ∈ s.calls.map Call.pub, capacity cfg pub ≤ defaultHistoryLimit
  writers : ∀ c ∈ s.calls, ∀ ref, c.pc = .write ref → s.history = some ref
  held : ∀ ref, s.history = some ref → ∃ h, Holds cfg s ref h
  fresh : s.history = none → s.accepted = []

variable {cfg : Config} {s s' : State} {a : Action} {k : Nat} {c : Call}

theorem inv_start : Inv cfg .start where
  logged := ⟨fun _ _ => by simp [State.start, State.returned], nofun⟩
  pending := forall_mem_nil _
  writers := forall_mem_nil _
  held := nofun
  fresh := fun _ => rfl

variable (h : Inv cfg s)
include h

section
variable (hk : s.calls[k]? = some c)
include hk

theorem Inv.goto {pc : Pc} (hc : c.pc.offset = none) (hoff : pc.offset = none)
    (hpc : ∀ ref, pc = .write ref → s.history = some ref) : Inv cfg (s.goto k c pc) := by
  refine ⟨h.logged.goto hk hc hoff, ?_, forall_mem_set h.writers hpc, ?_, h.fresh⟩
  · rw [pubs_goto hk]
    exact h.pending
  · intro ref href
    obtain ⟨ring, hheld⟩ := h.held ref href
    refine ⟨ring, { hheld with size := ?_ }⟩
    rw [pubs_goto hk]
    exact hheld.size

theorem Inv.create (hc : c.pc.offset = none) (hnone : s.history = none) :
    Inv cfg { s.goto k c (.write s.rings.length) with
      rings := s.rings ++ [newHistory cfg c.pub]
      history := some s.rings.length } := by
  have hempty : s.accepted = [] := h.fresh hnone
  have hlogged : Logged cfg (s.goto k c (.write s.rings.length)) := h.logged.goto hk hc rfl
  have hpubs := pubs_goto hk (.write s.rings.length)
  refine ⟨⟨hlogged.dense, hlogged.stored⟩, ?_, ?_, ?_, nofun⟩
  · exact hpubs ▸ h.pending
  · intro d hd ref hwrite
    rcases mem_or_eq_of_mem_set hd with hd | rfl
    · have hsome := h.writers d hd ref hwrite
      rw [hnone] at hsome
      cases hsome
    · cases hwrite
      rfl
  · intro ref href
    cases href
    refine ⟨newHistory cfg c.pub, by simp, ?_, ?_, ?_⟩
    · exact (congrArg length hempty).symm
    · change RingBuffer.Records _ (s.accepted.map Prod.snd)
      rw [hempty]
      exact RingBuffer.records_empty
    · change _ ∈ ((s.goto k c _).calls.map Call.pub).map (capacity cfg)
      rw [hpubs]
      exact mem_map_of_mem (mem_map_of_mem (mem_of_getElem? hk))

theorem Inv.write {ref : Nat} {ring : ChannelHistory}
    (hwrite : c.pc = .write ref) (hring : s.rings[ref]? = some ring) :
    Inv cfg { s.goto k c (.returned (some (ring.nextOff + 1))) with
      rings := s.rings.set ref
        ⟨ring.ring.push (stored cfg c.pub (ring.nextOff + 1)), ring.nextOff + 1⟩
      accepted := s.accepted ++ [(k, stored cfg c.pub (ring.nextOff + 1))] } := by
  have hcurrent := h.writers c (mem_of_getElem? hk) ref hwrite
  obtain ⟨ring', hheld⟩ := h.held ref hcurrent
  cases hring.symm.trans hheld.ring
  have hpubs := pubs_goto hk (.returned (some (ring.nextOff + 1)))
  refine ⟨?_, hpubs ▸ h.pending, ?_, ?_, ?_⟩
  · rw [hheld.nextOff]
    exact h.logged.write hk (by rw [hwrite]; rfl) _
  · exact forall_mem_set h.writers nofun
  · intro other hother
    cases hcurrent.symm.trans hother
    refine ⟨_, getElem?_set_self (List.getElem?_eq_some_iff.mp hring).1, ?_, ?_, ?_⟩
    · simp [hheld.nextOff]
    · rw [map_append]
      exact hheld.records.push _
    · change _ ∈ ((s.goto k c _).calls.map Call.pub).map (capacity cfg)
      rw [RingBuffer.size_push, hpubs]
      exact hheld.size
  · intro hnone
    rw [show s.history = none from hnone] at hcurrent
    cases hcurrent

theorem Inv.proceed (hstep : proceed cfg s k c = some s') : Inv cfg s' := by
  unfold MemoryBroker.proceed at hstep
  cases hpc : c.pc with
  | lookup =>
    have hc : c.pc.offset = none := by rw [hpc]; rfl
    simp only [hpc] at hstep
    cases hhistory : s.history with
    | none =>
      simp only [hhistory] at hstep
      cases hstep
      exact h.goto hk hc rfl nofun
    | some ref =>
      simp only [hhistory] at hstep
      cases hstep
      refine h.goto hk hc rfl ?_
      intro other hother
      cases hother
      exact hhistory
  | create =>
    have hc : c.pc.offset = none := by rw [hpc]; rfl
    simp only [hpc] at hstep
    cases hhistory : s.history with
    | none =>
      simp only [hhistory] at hstep
      cases hstep
      exact h.create hk hc hhistory
    | some ref =>
      simp only [hhistory] at hstep
      cases hstep
      refine h.goto hk hc rfl ?_
      intro other hother
      cases hother
      exact hhistory
  | write ref =>
    simp only [hpc] at hstep
    obtain ⟨ring, hring, rfl⟩ := Option.map_eq_some_iff.mp hstep
    exact h.write hk hpc hring
  | returned offset => simp [hpc] at hstep

end

/-- Everything but the subscriber counts and the map entry is left as it is. -/
theorem Inv.setHistory {history : Option Nat} {subs wcCounts : Nat}
    (hwriters : ∀ c ∈ s.calls, ∀ ref, c.pc = .write ref → history = some ref)
    (hheld : ∀ ref, history = some ref → s.history = some ref)
    (hfresh : history = none → s.accepted = []) :
    Inv cfg { s with history := history, subs := subs, wcCounts := wcCounts } := by
  refine ⟨{ h.logged with }, h.pending, hwriters, ?_, hfresh⟩
  intro ref href
  obtain ⟨ring, hring⟩ := h.held ref (hheld ref href)
  exact ⟨ring, { hring with }⟩

theorem Inv.unsubscribe (hok : Undisturbed cfg s .unsubscribe) :
    Inv cfg (unsubscribe cfg s) := by
  unfold MemoryBroker.unsubscribe
  split_ifs with hwild hreclaim
  · exact h.setHistory h.writers (fun _ => id) h.fresh
  · obtain ⟨ref, href⟩ := Option.isSome_iff_exists.mp hreclaim
    obtain ⟨hcurrent, hcond⟩ := Option.filter_eq_some_iff.mp href
    obtain ⟨ring, hheld⟩ := h.held ref hcurrent
    have hunwritten : ring.nextOff = 0 := by
      have hany := of_decide_eq_true hcond
      rw [hheld.ring] at hany
      simpa using (of_decide_eq_true hany.2.2).2
    refine h.setHistory ?_ nofun ?_
    · intro c hc other hother
      have hsame : s.history = some other := h.writers c hc other hother
      cases hcurrent.symm.trans hsame
      exact absurd hother (hok ref href c hc)
    · intro _
      exact eq_nil_of_length_eq_zero (hheld.nextOff.symm.trans hunwritten)
  · exact h.setHistory h.writers (fun _ => id) h.fresh

theorem Inv.publish {pub : Publication} {pc : Pc} (hsize : capacity cfg pub ≤ defaultHistoryLimit)
    (hoff : pc.offset = none) (hpc : ∀ ref, pc ≠ .write ref) :
    Inv cfg { s with calls := s.calls ++ [⟨pub, pc⟩] } := by
  refine ⟨h.logged.publish hoff, ?_, ?_, ?_, h.fresh⟩
  · rw [map_append]
    exact forall_mem_snoc h.pending hsize
  · exact forall_mem_snoc h.writers fun ref hwrite => absurd hwrite (hpc ref)
  · intro ref href
    obtain ⟨ring, hheld⟩ := h.held ref href
    refine ⟨ring, { hheld with size := ?_ }⟩
    rw [map_append, map_append]
    exact mem_append_left _ hheld.size

theorem Inv.step (hok : Undisturbed cfg s a) (hstep : step cfg s a = some s') : Inv cfg s' := by
  cases a with
  | publish pub =>
    cases hstep
    refine h.publish hok ?_ ?_
    · split_ifs <;> rfl
    · split_ifs <;> nofun
  | call k =>
    obtain ⟨c, hk, hstep⟩ := Option.bind_eq_some_iff.mp hstep
    exact h.proceed hk hstep
  | subscribe =>
    cases hstep
    unfold MemoryBroker.subscribe
    split
    · exact h
    · split_ifs
      · exact h.setHistory h.writers (fun _ => id) h.fresh
      · exact h.setHistory h.writers (fun _ => id) h.fresh
  | unsubscribe =>
    cases hstep
    exact h.unsubscribe hok

end Invariant

section History
variable {cfg : Config} {s : State}

theorem mem_history {h : ChannelHistory} {pub : Publication} {limit : Int}
    (hring : s.history.bind (s.rings[·]?) = some h)
    (hsize : h.ring.size ≤ defaultHistoryLimit) (hlimit : 0 < limit → h.ring.size ≤ limit)
    (hpub : pub ∈ h.ring.toList) : pub ∈ (history s 0 limit).publications := by
  have hlength : h.ring.toList.length ≤ if limit ≤ 0 then defaultHistoryLimit else limit.toNat := by
    rw [RingBuffer.length_toList]
    have hcount := h.ring.count_le
    split_ifs with hnone
    · omega
    · have hle := hlimit (by omega)
      omega
  unfold history
  simp only [hring]
  cases hlist : h.ring.toList with
  | nil =>
    rw [hlist] at hpub
    cases hpub
  | cons oldest rest =>
    rw [hlist] at hpub hlength
    simpa [take_of_length_le hlength] using hpub

theorem Inv.retained (h : Inv cfg s) : Retained cfg s := by
  intro k c off hk hoff
  obtain ⟨hpos, hget⟩ := (h.logged.dense k off).mp hoff
  obtain ⟨⟨k', pub⟩, hentry, rfl⟩ := Option.map_eq_some_iff.mp hget
  obtain ⟨src, hsrc, hstored⟩ := h.logged.stored (off - 1) k' pub hentry
  rw [getElem?_map, hk] at hsrc
  cases hsrc
  obtain rfl : pub = stored cfg c.pub off := by rw [hstored, Nat.sub_add_cancel hpos]
  cases hhistory : s.history with
  | none =>
    rw [h.fresh hhistory] at hentry
    cases hentry
  | some ref =>
    obtain ⟨ring, hheld⟩ := h.held ref hhistory
    have hring : s.history.bind (s.rings[·]?) = some ring := by
      rw [hhistory]
      exact hheld.ring
    obtain ⟨pub, hpub, hsize⟩ := mem_map.mp hheld.size
    obtain ⟨d, hd, rfl⟩ := mem_map.mp hpub
    refine ⟨ring, hhistory ▸ hring, ⟨d, hd, hsize.symm⟩, fun hlast limit hlimit => ?_⟩
    refine mem_history hring (hsize ▸ h.pending _ hpub) hlimit ?_
    -- the entries dropped all come before the publication
    rw [show ring.ring.toList = _ from hheld.records, mem_iff_getElem?]
    refine ⟨off - 1 - (s.accepted.length - ring.ring.size), ?_⟩
    rw [getElem?_drop, length_map, Nat.add_sub_cancel' (by omega), getElem?_map, hentry]
    rfl

end History

/-- While no ring is reclaimed under a `Publish`, the offsets returned count up without gaps and the
history has every publication that has not been overwritten. -/
theorem memory_offsets {cfg : Config} {s : State} {as : List Action}
    (hrun : run cfg .start as = some s)
    (hok : Transition.Along (step cfg) (Undisturbed cfg) .start as) :
    Dense s ∧ Retained cfg s := by
  have hinv : Inv cfg s :=
    Transition.invariant_along inv_start (fun _ _ _ h hok hstep => h.step hok hstep) hrun hok
  exact ⟨hinv.logged.dense, hinv.retained⟩

section Page
variable {cfg : Config} {s : State}

def retained (s : State) : List Publication :=
  (s.history.bind (s.rings[·]?)).elim [] (·.ring.toList)

def pageLimit (limit : Int) : Nat :=
  if limit ≤ 0 then defaultHistoryLimit else limit.toNat

theorem pageLimit_pos (limit : Int) : 0 < pageLimit limit := by
  unfold pageLimit
  split_ifs
  · decide
  · omega

theorem history_of_nil (sinceOffset : Nat) (limit : Int) (h : retained s = []) :
    history s sinceOffset limit =
      if 0 < sinceOffset then { HistoryPage.empty with gap := true, gapReason := .emptyExpired }
      else .empty := by
  unfold retained at h
  unfold history
  cases hring : s.history.bind (s.rings[·]?) with
  | none => rfl
  | some ring =>
    rw [hring] at h
    simp only [show ring.ring.toList = [] from h]

theorem history_of_cons (sinceOffset : Nat) (limit : Int) {oldest : Publication}
    {rest : List Publication} (h : retained s = oldest :: rest) :
    let page := history s sinceOffset limit
    page.publications =
        ((retained s).filter (sinceOffset ≤ ·.offset)).take (pageLimit limit) ∧
      page.firstRetained = oldest.offset ∧
      page.truncated = decide (page.publications.length = pageLimit limit) ∧
      page.gap = decide (0 < sinceOffset ∧ sinceOffset < oldest.offset) := by
  unfold retained at h ⊢
  unfold history
  cases hring : s.history.bind (s.rings[·]?) with
  | none => simp [hring] at h
  | some ring =>
    rw [hring] at h
    simp only [Option.elim_some, show ring.ring.toList = oldest :: rest from h]
    exact ⟨rfl, trivial, rfl, trivial⟩

end Page

section Serial
variable {cfg : Config} {s : State} {size : Nat} {log : List Publication}

/-- The publications are published one after the other; the first call also creates the ring. -/
def serially (pubs : List Publication) : List Action :=
  pubs.zipIdx.flatMap fun pk => .publish pk.1 :: replicate (if pk.2 = 0 then 3 else 2) (.call pk.2)

def numbered (cfg : Config) (pubs : List Publication) : List Publication :=
  pubs.zipIdx.map fun pk => stored cfg pk.1 (pk.2 + 1)

theorem length_numbered (cfg : Config) (pubs : List Publication) :
    (numbered cfg pubs).length = pubs.length := by
  simp [numbered]

theorem offsets_numbered (cfg : Config) (pubs : List Publication) :
    (numbered cfg pubs).map (·.offset) = range' 1 pubs.length := by
  induction pubs using reverseRecOn with
  | nil => rfl
  | append_singleton pubs pub ih =>
    rw [numbered, zipIdx_append, map_append, map_append, ← numbered, ih, length_append,
      length_singleton, range'_concat]
    simp [stored, Nat.add_comm]

/-- The state after publishing: one ring, which has the log, and no call under way. -/
structure Published (size : Nat) (log : List Publication) (s : State) : Prop where
  calls : s.calls.length = log.length
  history : s.history = some 0
  ring : ∃ ring, s.rings = [⟨ring, log.length⟩] ∧ ring.size = size ∧ ring.Records log

theorem published_first (hvalid : validTopic cfg.channel = true) (pub : Publication) :
    ∃ s, run cfg .start (serially [pub]) = some s ∧
      Published (capacity cfg pub) (numbered cfg [pub]) s := by
  refine ⟨⟨[⟨(newHistory cfg pub).ring.push (stored cfg pub 1), 1⟩], some 0, 0, 0,
    [⟨pub, .returned (some 1)⟩], [(0, stored cfg pub 1)]⟩, ?_, rfl, rfl, _, rfl,
    RingBuffer.size_push, RingBuffer.records_empty.push _⟩
  simp [serially, replicate, Transition.run, step, hvalid, proceed, State.start, State.goto,
    newHistory]

theorem Published.next (h : Published size log s) (hvalid : validTopic cfg.channel = true)
    (pub : Publication) :
    ∃ t, run cfg s [.publish pub, .call log.length, .call log.length] = some t ∧
      Published size (log ++ [stored cfg pub (log.length + 1)]) t := by
  obtain ⟨ring, hrings, hsize, hrecords⟩ := h.ring
  refine ⟨⟨[⟨ring.push (stored cfg pub (log.length + 1)), log.length + 1⟩], s.history, s.subs,
    s.wcCounts, s.calls ++ [⟨pub, .returned (some (log.length + 1))⟩],
    s.accepted ++ [(log.length, stored cfg pub (log.length + 1))]⟩, ?_, ?_, h.history, _, ?_,
    RingBuffer.size_push.trans hsize, hrecords.push _⟩
  · simp [Transition.run, step, hvalid, proceed, State.goto, ← h.calls, h.history, hrings]
  · simp [h.calls]
  · simp

theorem run_serially (hvalid : validTopic cfg.channel = true) (first : Publication)
    (rest : List Publication) :
    ∃ s, run cfg .start (serially (first :: rest)) = some s ∧
      Published (capacity cfg first) (numbered cfg (first :: rest)) s := by
  induction rest using reverseRecOn with
  | nil => exact published_first hvalid first
  | append_singleton rest pub ih =>
    obtain ⟨s, hrun, hs⟩ := ih
    obtain ⟨t, hnext, ht⟩ := hs.next hvalid pub
    rw [length_numbered] at hnext ht
    refine ⟨t, ?_, ?_⟩
    · rw [← cons_append, serially, zipIdx_append, flatMap_append, ← serially]
      refine (Transition.run_append (step cfg) _ _ _).trans ?_
      rw [show Transition.run (step cfg) _ _ = _ from hrun]
      simpa [replicate] using hnext
    · rw [← cons_append, numbered, zipIdx_append, map_append, ← numbered]
      simpa using ht

theorem Published.retained_eq (h : Published size log s) :
    retained s = log.drop (log.length - min size log.length) ∧ 0 < size := by
  obtain ⟨ring, hrings, rfl, hrecords⟩ := h.ring
  rw [retained, h.history, hrings]
  change ring.toList = _ ∧ _
  rw [show ring.toList = _ from hrecords]
  exact ⟨by congr 1; omega, Nat.zero_lt_of_lt ring.head_lt⟩

/-- The size of the ring is decided by the first publication. -/
def ringSize (cfg : Config) (pubs : List Publication) : Nat :=
  pubs.head?.elim cfg.historySize (capacity cfg)

theorem retained_serially (hvalid : validTopic cfg.channel = true) (pubs : List Publication) :
    ∃ s, run cfg .start (serially pubs) = some s ∧
      retained s = (numbered cfg pubs).drop (pubs.length - min (ringSize cfg pubs) pubs.length) ∧
      0 < ringSize cfg pubs := by
  cases pubs with
  | nil => exact ⟨.start, rfl, by simp [retained, numbered, State.start], cfg.historySize_pos⟩
  | cons first rest =>
    obtain ⟨s, hrun, hs⟩ := run_serially hvalid first rest
    have hretained := hs.retained_eq
    rw [length_numbered] at hretained
    exact ⟨s, hrun, hretained⟩

end Serial

/-- After any number of publishes the ring has the last of them with consecutive offsets, and a
page is the first part of those from an offset on, with a gap exactly if one from there on has been
overwritten. -/
theorem memory_history {cfg : Config} (hvalid : validTopic cfg.channel = true)
    (pubs : List Publication) :
    let n := pubs.length
    let size := ringSize cfg pubs
    ∃ s, run cfg .start (serially pubs) = some s ∧
      retained s = (numbered cfg pubs).drop (n - min size n) ∧
      (retained s).map (·.offset) = range' (n - min size n + 1) (min size n) ∧
      ∀ sinceOffset limit, let page := history s sinceOffset limit
        page.publications =
          ((retained s).filter (sinceOffset ≤ ·.offset)).take (pageLimit limit) ∧
        page.firstRetained = (retained s).head?.elim 0 (·.offset) ∧
        (page.truncated = true ↔ page.publications.length = pageLimit limit) ∧
        (0 < sinceOffset → sinceOffset ≤ n →
          (page.gap = true ↔
            ∃ o, sinceOffset ≤ o ∧ o ≤ n ∧ o ∉ (retained s).map (·.offset))) := by
  intro n size
  obtain ⟨s, hrun, hretained, hpos⟩ := retained_serially hvalid pubs
  have hoffsets : (retained s).map (·.offset) = range' (n - min size n + 1) (min size n) := by
    rw [hretained, map_drop, offsets_numbered, drop_range']
    congr 1 <;> omega
  refine ⟨s, hrun, hretained, hoffsets, fun sinceOffset limit => ?_⟩
  have hlimit := pageLimit_pos limit
  cases hlist : retained s with
  | nil =>
    have hempty : min size n = 0 := by
      rw [hlist] at hoffsets
      simpa only [length_range'] using (congrArg length hoffsets.symm).trans length_nil
    rw [history_of_nil _ _ hlist]
    refine ⟨?_, ?_, ?_, ?_⟩
    · split_ifs <;> simp [HistoryPage.empty]
    · split_ifs <;> rfl
    · split_ifs <;> simp [HistoryPage.empty] <;> omega
    · omega
  | cons oldest rest =>
    obtain ⟨hpublications, hfirst, htruncated, hgap⟩ := history_of_cons sinceOffset limit hlist
    rw [← hlist]
    refine ⟨hpublications, ?_, ?_, ?_⟩
    · rw [hfirst, hlist]
      rfl
    · rw [htruncated, decide_eq_true_iff]
    · intro hsince hle
      have holdest : oldest.offset = n - min size n + 1 := by
        have hhead := congrArg head? hoffsets
        rw [hlist, map_cons, head?_cons, head?_range'] at hhead
        split_ifs at hhead
        exact Option.some.inj hhead
      rw [hgap, decide_eq_true_iff, hoffsets, holdest]
      simp only [mem_range'_1]
      constructor
      · rintro ⟨-, hlt⟩
        exact ⟨sinceOffset, le_rfl, hle, by omega⟩
      · rintro ⟨o, hge, hlast, hmissing⟩
        exact ⟨hsince, by omega⟩

section Runs

def room : Config := ⟨"room", "e1", 2, by decide⟩

def message (id : String) : Publication := ⟨"", id, "", 0, "", 0⟩

theorem memory_history_overwritten :
    ∃ s, run room .start (serially [message "p1", message "p2", message "p3"]) = some s ∧
      (retained s).map (·.offset) = [2, 3] ∧ (history s 1 0).gap = true := by
  obtain ⟨s, hrun, -, hoffsets, hpage⟩ :=
    @memory_history room (by decide +kernel) [message "p1", message "p2", message "p3"]
  obtain ⟨-, -, -, hgap⟩ := hpage 1 0
  refine ⟨s, hrun, hoffsets, (hgap (by decide) (by decide)).mpr ⟨1, le_rfl, by decide, ?_⟩⟩
  rw [hoffsets]
  decide

def publishThree : List Action :=
  [.subscribe, .publish (message "p1"), .call 0, .call 0, .publish (message "p2"), .call 1,
    .call 1, .call 0, .unsubscribe, .publish (message "p3"), .call 2, .call 2]

theorem memory_offsets_three :
    ∃ s, run room .start publishThree = some s ∧
      (range 3).map s.returned = [some 2, some 1, some 3] ∧ Dense s ∧ Retained room s :=
  ⟨_, rfl, rfl, memory_offsets (rfl : run room .start publishThree = _) (by decide)⟩

/-- The last subscriber leaves between the creation of the ring and its first write: the next
publication gets a new ring, and both get the first offset. -/
theorem memory_offsets_repeat :
    ∃ as s, run room .start as = some s ∧
      s.accepted.map (fun p => (p.2.id, p.2.offset)) = [("p2", 1), ("p1", 1)] ∧
      s.returned 0 = some 1 ∧ s.returned 1 = some 1 ∧ ¬ Dense s ∧ ¬ Retained room s := by
  refine ⟨[.subscribe, .publish (message "p1"), .call 0, .call 0, .unsubscribe,
    .publish (message "p2"), .call 1, .call 1, .call 1, .call 0], _, rfl, rfl, rfl, rfl, ?_, ?_⟩
  · intro hdense
    exact absurd ((hdense 0 1).mp rfl).2 (by decide)
  · intro hretained
    obtain ⟨h, hring, -, hmem⟩ := hretained 0 _ 1 rfl rfl
    cases hring
    exact absurd (hmem (by decide) 2 (by decide)) (by decide)

end Runs

end MessageLoop.MemoryBroker
