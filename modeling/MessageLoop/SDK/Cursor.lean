import MessageLoop.SDK.Client

/-!
The cursor of one channel over any number of connections.

The publications of the channel have the offsets `1 … head`; nothing is trimmed and the epoch does
not change. A connection subscribes, reads the history above the cursor the client sent, streams it
as replay frames and ends it with one `RecoverComplete`; live frames of later publications come in
between at any point, several publications to a frame if the server batches them. A step is the
receipt of a frame by the client, so what a dropped connection had still to bring is lost.
-/

namespace MessageLoop.SDK

open Recover List Client

/-- `live` is the last offset that counts as live and sent, `replay` what is left of the replay once
the history has been read, `lastSent` the position that `RecoverComplete` will report. -/
structure Connection where
  since : Option Nat
  live : Nat
  replay : Option (List Nat)
  lastSent : Option Nat
  completed : Bool
  deriving DecidableEq, Repr

structure State where
  head : Nat
  client : Client
  conn : Option Connection

structure Config where
  channel : String
  epoch : String

inductive Action where
  | publish
  | connect
  | readHistory
  | replay
  | complete
  | live (count : Nat)
  | transient
  | drop
  deriving DecidableEq, Repr

def historyAbove (since : Option Nat) (head : Nat) : List Nat :=
  match since with
  | none => []
  | some cursor => List.range' (cursor + 1) (head - cursor)

def Connection.pending (conn : Connection) (head : Nat) : List Nat :=
  match conn.replay with
  | none => historyAbove conn.since head
  | some rest => rest

section Machine
variable (cfg : Config)

def envelope (replay : Bool) (offset : Option Nat) : Envelope :=
  ⟨cfg.channel, some ⟨cfg.epoch, offset⟩, replay⟩

def frame (s : State) (conn : Connection) : Action → Option State
  | .readHistory =>
    match conn.replay with
    | some _ => none
    | none => some { s with
        conn := some { conn with replay := some (historyAbove conn.since s.head) } }
  | .replay =>
    match conn.replay with
    | some (offset :: rest) => some { s with
        client := s.client.handlePublication [envelope cfg true (some offset)]
        conn := some { conn with replay := some rest, lastSent := some offset } }
    | _ => none
  | .complete =>
    if conn.replay = some [] ∧ conn.completed = false then some { s with
      client := s.client.handleRecoverComplete cfg.channel ⟨cfg.epoch, conn.lastSent⟩
      conn := some { conn with completed := true } }
    else none
  | .live count =>
    if 0 < count ∧ conn.live + count ≤ s.head then some { s with
      client := s.client.handlePublication
        ((List.range' (conn.live + 1) count).map fun offset => envelope cfg false (some offset))
      conn := some { conn with live := conn.live + count } }
    else none
  | .transient => some { s with client := s.client.handlePublication [envelope cfg false none] }
  | .drop => some { s with conn := none }
  | _ => none

def step (s : State) : Action → Option State
  | .publish => some { s with head := s.head + 1 }
  | .connect =>
    -- the live stream starts when the channel is subscribed, before the history is read
    match s.conn, s.client.resumeSubscriptions.find? (·.channel = cfg.channel) with
    | none, some sub => some { s with
        client := s.client.handleConnected cfg.epoch [⟨sub.channel, sub.ephemeral, sub.token⟩]
        conn := some ⟨offsetFrom sub.cursor, s.head, none, offsetFrom sub.cursor, false⟩ }
    | _, _ => none
  | a =>
    match s.conn with
    | none => none
    | some conn => frame cfg s conn a

def run : State → List Action → Option State :=
  Transition.run (step cfg)

def start (first head : Nat) : State where
  head := head
  client := ⟨cfg.epoch, [(cfg.channel, ⟨false, ""⟩)],
    fun channel => if channel = cfg.channel then some first else none, true, []⟩
  conn := none

/-- Every offset from the first cursor up to the stored one has been given to the handler. -/
def NoSkip (first : Nat) (s : State) : Prop :=
  ∀ cursor, s.client.channelOffsets cfg.channel = some cursor →
    ∀ offset, first < offset → offset ≤ cursor → s.client.Handled cfg.channel offset

/-- A live frame does not overtake a replay that the client still needs. -/
def Ordered (first : Nat) (s : State) : Action → Prop
  | .live count => ∀ conn, s.conn = some conn → 0 < count → conn.live + count ≤ s.head →
    ∀ offset ∈ conn.pending s.head, first < offset → offset ≤ conn.live →
      s.client.Handled cfg.channel offset
  | _ => True

end Machine

section Server

theorem filter_range'_above (cursor head : Nat) :
    (List.range' 1 head).filter (cursor + 1 ≤ ·) = List.range' (cursor + 1) (head - cursor) := by
  induction head with
  | zero => simp
  | succ head ih =>
    rw [range'_concat, filter_append, ih]
    by_cases hle : cursor ≤ head
    · have hcount : head + 1 - cursor = head - cursor + 1 := by omega
      have hlast : 1 + 1 * head = cursor + 1 + 1 * (head - cursor) := by omega
      rw [hcount, range'_concat, hlast, filter_cons_of_pos (by simp), filter_nil]
    · have hcount : head + 1 - cursor = head - cursor := by omega
      have hbelow : ¬ cursor + 1 ≤ 1 + 1 * head := by omega
      rw [hcount, filter_cons_of_neg (by simpa using hbelow), filter_nil,
        append_nil]

end Server

section Invariant
variable {cfg : Config} {first : Nat} {s t : State} {conn : Connection}

structure Connection.Sound (cfg : Config) (first : Nat) (s : State) (conn : Connection) : Prop where
  reported : ∃ last, conn.lastSent = some last ∧
    (∀ offset, first < offset → offset ≤ last → s.client.Handled cfg.channel offset) ∧
    (conn.replay = none → conn.since = some last) ∧
    ∀ rest, conn.replay = some rest → ∃ count, rest = List.range' (last + 1) count
  covered : ∀ offset, first < offset → offset ≤ conn.live →
    s.client.Handled cfg.channel offset ∨ offset ∈ conn.pending s.head

structure Inv (cfg : Config) (first : Nat) (s : State) : Prop where
  handler : s.client.hasHandler = true
  stored : ∃ cursor, s.client.channelOffsets cfg.channel = some cursor
  noSkip : NoSkip cfg first s
  conn : ∀ conn, s.conn = some conn → conn.Sound cfg first s

theorem mem_historyAbove {cursor head offset : Nat} :
    offset ∈ historyAbove (some cursor) head ↔ cursor < offset ∧ offset ≤ head := by
  rw [historyAbove, mem_range'_1]
  omega

theorem mem_historyAbove_of_le {since : Option Nat} {head head' offset : Nat} (hle : head ≤ head')
    (h : offset ∈ historyAbove since head) : offset ∈ historyAbove since head' := by
  cases since with
  | none => exact h
  | some cursor =>
    rw [mem_historyAbove] at h ⊢
    omega

theorem Connection.Sound.mono (h : conn.Sound cfg first s) (hhead : s.head ≤ t.head)
    (hhandled : ∀ offset, s.client.Handled cfg.channel offset → t.client.Handled cfg.channel offset) :
    conn.Sound cfg first t := by
  obtain ⟨last, hlast, hreported, hsince, hrest⟩ := h.reported
  refine ⟨⟨last, hlast, fun offset hlt hle => hhandled _ (hreported offset hlt hle), hsince, hrest⟩, ?_⟩
  intro offset hlt hle
  rcases h.covered offset hlt hle with hdone | hpending
  · exact .inl (hhandled offset hdone)
  · right
    unfold Connection.pending at hpending ⊢
    cases hreplay : conn.replay with
    | none =>
      rw [hreplay] at hpending
      exact mem_historyAbove_of_le hhead hpending
    | some rest => rwa [hreplay] at hpending

section
variable (h : Inv cfg first s)
include h

theorem Inv.publish : Inv cfg first { s with head := s.head + 1 } where
  handler := h.handler
  stored := h.stored
  noSkip := h.noSkip
  conn conn hconn := (h.conn conn hconn).mono (Nat.le_succ _) fun _ hdone => hdone

theorem Inv.connect (hstep : step cfg s .connect = some t) :
    Inv cfg first t := by
  obtain ⟨cursor, hcursor⟩ := h.stored
  simp only [step] at hstep
  split at hstep
  · rename_i sub hnone hfind
    have hchannel : sub.channel = cfg.channel := by simpa using find?_some hfind
    have hsince : offsetFrom sub.cursor = some cursor := by
      rw [(mem_resumeSubscriptions (mem_of_find?_eq_some hfind)).2.2, hchannel,
        hcursor]
    cases hstep
    refine ⟨h.handler, ⟨cursor, hcursor⟩, h.noSkip, ?_⟩
    rintro conn ⟨⟩
    rw [hsince]
    refine ⟨⟨cursor, rfl, h.noSkip cursor hcursor, fun _ => rfl, nofun⟩, ?_⟩
    intro offset hlt hle
    by_cases hbelow : offset ≤ cursor
    · exact .inl (h.noSkip cursor hcursor offset hlt hbelow)
    · exact .inr (mem_historyAbove.mpr ⟨by omega, hle⟩)
  · cases hstep

theorem Inv.readHistory (hconn : s.conn = some conn)
    (hstep : frame cfg s conn .readHistory = some t) : Inv cfg first t := by
  obtain ⟨⟨last, hlast, hreported, hsince, -⟩, hcovered⟩ := h.conn conn hconn
  simp only [frame] at hstep
  split at hstep
  · cases hstep
  · rename_i hreplay
    cases hstep
    refine { h with conn := ?_ }
    rintro _ ⟨⟩
    refine ⟨⟨last, hlast, hreported, nofun, ?_⟩, ?_⟩
    · rintro _ ⟨⟩
      exact ⟨s.head - last, by rw [hsince hreplay, historyAbove]⟩
    · simpa only [Connection.pending, hreplay] using hcovered

theorem Inv.replay (hconn : s.conn = some conn)
    (hstep : frame cfg s conn .replay = some t) : Inv cfg first t := by
  obtain ⟨⟨last, hlast, hreported, -, hrest⟩, hcovered⟩ := h.conn conn hconn
  simp only [frame] at hstep
  split at hstep
  · rename_i offset rest hreplay
    cases hstep
    have hdone : ∀ o, (s.client.handlePublication [envelope cfg true (some offset)]).Handled
        cfg.channel o ↔ s.client.Handled cfg.channel o ∨ o = offset := by
      intro o
      rw [handled_handlePublication h.handler]
      simp [envelope, offsetFrom, eq_comm]
    -- the replay goes on where it stopped
    obtain ⟨count, hrange⟩ := hrest _ hreplay
    obtain ⟨count, rfl⟩ : ∃ k, count = k + 1 := by
      cases count with
      | zero => simp at hrange
      | succ k => exact ⟨k, rfl⟩
    rw [range'_succ] at hrange
    obtain ⟨rfl, rfl⟩ := cons.inj hrange
    have hcursor : (s.client.handlePublication
        [envelope cfg true (some (last + 1))]).channelOffsets = s.client.channelOffsets :=
      channelOffsets_replay _
    refine ⟨(handlePublication_hasHandler _).trans h.handler, ?_, ?_, ?_⟩
    · obtain ⟨cursor, hstored⟩ := h.stored
      exact ⟨cursor, by rw [hcursor, hstored]⟩
    · intro cursor hstored o hlt hle
      rw [hcursor] at hstored
      exact (hdone o).mpr (.inl (h.noSkip cursor hstored o hlt hle))
    · rintro _ ⟨⟩
      refine ⟨⟨last + 1, rfl, ?_, (fun h => by cases h), ?_⟩, ?_⟩
      · intro o hlt hle
        rcases Nat.lt_or_eq_of_le hle with hle | rfl
        · exact (hdone o).mpr (.inl (hreported o hlt (by omega)))
        · exact (hdone _).mpr (.inr rfl)
      · rintro _ ⟨⟩
        exact ⟨count, rfl⟩
      · intro o hlt hle
        rcases hcovered o hlt hle with hold | hpending
        · exact .inl ((hdone o).mpr (.inl hold))
        · rw [Connection.pending, hreplay] at hpending
          rcases mem_cons.mp hpending with rfl | hpending
          · exact .inl ((hdone _).mpr (.inr rfl))
          · exact .inr hpending
  · cases hstep

theorem Inv.complete (hconn : s.conn = some conn)
    (hstep : frame cfg s conn .complete = some t) : Inv cfg first t := by
  have hsound := h.conn conn hconn
  obtain ⟨last, hlast, hreported, -, -⟩ := hsound.reported
  simp only [frame] at hstep
  split at hstep
  · cases hstep
    have hhandled : (s.client.handleRecoverComplete cfg.channel
        ⟨cfg.epoch, conn.lastSent⟩).handled = s.client.handled :=
      handleRecoverComplete_handled _
    have hcursor : (s.client.handleRecoverComplete cfg.channel
        ⟨cfg.epoch, conn.lastSent⟩).channelOffsets cfg.channel = some last ∨
        (s.client.handleRecoverComplete cfg.channel ⟨cfg.epoch, conn.lastSent⟩).channelOffsets =
          s.client.channelOffsets := by
      unfold handleRecoverComplete
      by_cases hempty : cfg.channel = ""
      · rw [if_pos hempty]
        exact .inr rfl
      · simp [hempty, hlast]
    refine ⟨(handleRecoverComplete_hasHandler _).trans h.handler, ?_, ?_, ?_⟩
    · rcases hcursor with hcursor | hcursor
      · exact ⟨last, hcursor⟩
      · obtain ⟨cursor, hstored⟩ := h.stored
        exact ⟨cursor, by rw [hcursor, hstored]⟩
    · intro cursor hstored o hlt hle
      rw [Client.Handled, hhandled]
      rcases hcursor with hcursor | hcursor
      · rw [hcursor] at hstored
        cases hstored
        exact hreported o hlt hle
      · rw [hcursor] at hstored
        exact h.noSkip cursor hstored o hlt hle
    · rintro _ ⟨⟩
      have hsame := hsound.mono (t := { s with
        client := s.client.handleRecoverComplete cfg.channel ⟨cfg.epoch, conn.lastSent⟩ }) le_rfl
        fun o hdone => by rwa [Client.Handled, hhandled]
      exact ⟨hsame.reported, hsame.covered⟩
  · cases hstep

end

theorem liveFrame_client (cfg : Config) (live : Nat) {c : Client} {count : Nat}
    (hhandler : c.hasHandler = true) (hcount : 0 < count) :
    let after := c.handlePublication
      ((range' (live + 1) count).map fun offset => envelope cfg false (some offset))
    after.channelOffsets cfg.channel = some (live + count) ∧
      ∀ offset, after.Handled cfg.channel offset ↔
        c.Handled cfg.channel offset ∨ live < offset ∧ offset ≤ live + count := by
  obtain ⟨count, rfl⟩ : ∃ k, count = k + 1 := ⟨count - 1, by omega⟩
  refine ⟨?_, fun offset => ?_⟩
  · rw [range'_concat, map_append]
    have hlast : live + 1 + 1 * count = live + (count + 1) := by omega
    rw [hlast]
    exact channelOffsets_live cfg.epoch
  · rw [handled_handlePublication hhandler]
    refine or_congr_right ?_
    simp only [mem_map, mem_range'_1]
    constructor
    · rintro ⟨_, ⟨o, ho, rfl⟩, -, hoffset⟩
      obtain rfl : o = offset := by simpa [envelope, offsetFrom] using hoffset
      omega
    · intro hoffset
      exact ⟨_, ⟨offset, by omega, rfl⟩, rfl, rfl⟩

theorem Inv.live (h : Inv cfg first s) (hconn : s.conn = some conn) {count : Nat}
    (hordered : Ordered cfg first s (.live count))
    (hstep : frame cfg s conn (.live count) = some t) : Inv cfg first t := by
  have hsound := h.conn conn hconn
  simp only [frame] at hstep
  split at hstep
  · rename_i hsend
    cases hstep
    obtain ⟨hcursor, hdone⟩ := liveFrame_client cfg conn.live h.handler hsend.1
    -- what the client lacks below the frame would be a replay that it overtakes
    have hbelow : ∀ offset, first < offset → offset ≤ conn.live + count →
        (s.client.handlePublication ((range' (conn.live + 1) count).map
          fun offset => envelope cfg false (some offset))).Handled cfg.channel offset := by
      intro offset hlt hle
      apply (hdone offset).mpr
      by_cases hold : offset ≤ conn.live
      · left
        rcases hsound.covered offset hlt hold with hhandled | hpending
        · exact hhandled
        · exact hordered conn hconn hsend.1 hsend.2 offset hpending hlt hold
      · exact .inr ⟨by omega, hle⟩
    refine ⟨(handlePublication_hasHandler _).trans h.handler, ⟨_, hcursor⟩, ?_, ?_⟩
    · intro cursor hstored offset hlt hle
      rw [hcursor] at hstored
      cases hstored
      exact hbelow offset hlt hle
    · rintro _ ⟨⟩
      obtain ⟨last, hlast, hreported, hsince, hrest⟩ := hsound.reported
      refine ⟨⟨last, hlast, fun o hlt hle => (hdone o).mpr (.inl (hreported o hlt hle)), hsince,
        hrest⟩, fun offset hlt hle => .inl (hbelow offset hlt hle)⟩
  · cases hstep

theorem Inv.transient (h : Inv cfg first s) :
    Inv cfg first { s with client := s.client.handlePublication [envelope cfg false none] } := by
  have hcursor : (s.client.handlePublication [envelope cfg false none]).channelOffsets =
      s.client.channelOffsets := by
    rw [handlePublication_channelOffsets]
    rfl
  have hdone : ∀ offset, s.client.Handled cfg.channel offset →
      (s.client.handlePublication [envelope cfg false none]).Handled cfg.channel offset :=
    fun offset hold => (handled_handlePublication h.handler).mpr (.inl hold)
  refine ⟨(handlePublication_hasHandler _).trans h.handler, ?_, ?_, ?_⟩
  · obtain ⟨cursor, hstored⟩ := h.stored
    exact ⟨cursor, by rw [hcursor, hstored]⟩
  · intro cursor hstored offset hlt hle
    rw [hcursor] at hstored
    exact hdone offset (h.noSkip cursor hstored offset hlt hle)
  · intro conn hconn
    exact (h.conn conn hconn).mono le_rfl hdone

theorem frame_of_step {a : Action} (hpublish : a ≠ .publish) (hconnect : a ≠ .connect)
    (hstep : step cfg s a = some t) : ∃ conn, s.conn = some conn ∧ frame cfg s conn a = some t := by
  cases hconn : s.conn with
  | none | some conn => cases a <;> simp_all [step]

theorem Inv.step (h : Inv cfg first s) {a : Action} (hordered : Ordered cfg first s a)
    (hstep : SDK.step cfg s a = some t) : Inv cfg first t := by
  cases a with
  | publish =>
    cases hstep
    exact h.publish
  | connect => exact h.connect hstep
  | readHistory =>
    obtain ⟨conn, hconn, hframe⟩ := frame_of_step (by simp) (by simp) hstep
    exact h.readHistory hconn hframe
  | replay =>
    obtain ⟨conn, hconn, hframe⟩ := frame_of_step (by simp) (by simp) hstep
    exact h.replay hconn hframe
  | complete =>
    obtain ⟨conn, hconn, hframe⟩ := frame_of_step (by simp) (by simp) hstep
    exact h.complete hconn hframe
  | live count =>
    obtain ⟨conn, hconn, hframe⟩ := frame_of_step (by simp) (by simp) hstep
    exact h.live hconn hordered hframe
  | transient =>
    obtain ⟨conn, hconn, hframe⟩ := frame_of_step (by simp) (by simp) hstep
    cases hframe
    exact h.transient
  | drop =>
    obtain ⟨conn, hconn, hframe⟩ := frame_of_step (by simp) (by simp) hstep
    cases hframe
    exact { h with conn := nofun }

end Invariant

section Main
variable {cfg : Config} {first : Nat} {s : State}

theorem inv_start (first head : Nat) : Inv cfg first (start cfg first head) where
  handler := rfl
  stored := ⟨first, by simp [start]⟩
  noSkip := by
    intro cursor hcursor offset hlt hle
    obtain rfl : first = cursor := by simpa [start] using hcursor
    omega
  conn := nofun

theorem Inv.ordered (h : Inv cfg first s) {a : Action}
    (hall : ∀ t, SDK.step cfg s a = some t → NoSkip cfg first t) : Ordered cfg first s a := by
  cases a with
  | live count =>
    intro conn hconn hcount hsend offset _ hlt hle
    obtain ⟨hcursor, hdone⟩ := liveFrame_client cfg conn.live h.handler hcount
    have hskip := hall _ (by simp only [SDK.step, hconn, frame, hcount, hsend, and_self, if_true]; rfl)
    rcases (hdone offset).mp (hskip _ hcursor offset hlt (by omega)) with hold | hnew
    · exact hold
    · omega
  | _ => trivial

/-- The stored cursor has nothing undelivered below it, in every state of a run, exactly if no live
frame of the run overtakes a replay that the client still needs. -/
theorem cursor_never_skips_iff (cfg : Config) (first head : Nat) (as : List Action) :
    (∀ before after s, as = before ++ after → run cfg (start cfg first head) before = some s →
      NoSkip cfg first s) ↔
      Transition.Along (step cfg) (Ordered cfg first) (start cfg first head) as :=
  Transition.always_iff_along (fun _ h => h.noSkip) (fun _ _ _ h => h.step) (fun _ _ h => h.ordered)
    (inv_start first head)

def roomConfig : Config :=
  ⟨"room", "e1"⟩

/-- The offset 4 is published during the replay of 2 and 3, its frame comes first and the connection
drops: the next connection starts above 4, and 2 and 3 are not asked for again. -/
def overtakingRun : List Action :=
  [.connect, .readHistory, .publish, .live 1, .drop, .connect, .readHistory, .complete]

theorem cursor_skips_overtaken_replay :
    ∃ s, run roomConfig (start roomConfig 1 3) overtakingRun = some s ∧
      s.conn = some ⟨some 4, 4, some [], some 4, true⟩ ∧
      s.client.channelOffsets "room" = some 4 ∧
      ¬ s.client.Handled "room" 2 ∧ ¬ s.client.Handled "room" 3 :=
  ⟨_, rfl, rfl, rfl, by decide, by decide⟩

end Main

end MessageLoop.SDK
