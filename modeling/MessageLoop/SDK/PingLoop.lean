import MessageLoop.SDK.Lifecycle

/-!
The ping loop of the Go client. `startPingLoop` takes a stored cancel function for a running loop,
so a loop that has ended by itself is not replaced until a reconnect loop clears the function.
-/

namespace MessageLoop.SDK.Lifecycle

open Client

/-- `handleConnected` for the current connection of an open client has returned, and the
connection has not failed since. -/
def Established (c : Client) : Prop :=
  c.closed = false ∧ c.live.isSome

def Runs (c : Client) (i : Nat) : Prop :=
  ∃ l, c.loops[i]? = some l ∧ l.running

def Pings (c : Client) (i : Nat) : Prop :=
  ∃ l, c.loops[i]? = some l ∧ l.running ∧ l.cancelled = false ∧ c.ctxDone = false

instance {c : Client} {i : Nat} : Decidable (Runs c i) :=
  decidable_of_iff (c.loops[i]?.any (·.running) = true) (by
    cases h : c.loops[i]? <;> simp [Runs, h])

instance {c : Client} : Decidable (Established c) :=
  inferInstanceAs (Decidable (_ ∧ _))

/-- Receive loops of earlier connections and the reconnect loop keep out of the way of a connection
that has been made since: neither is `connected` cleared nor the ping loop cancelled under it. A
ping loop with a late pong closes the transport of the connection. And a cancel function that
`startPingLoop` finds is that of a running loop. -/
def Tended (s : State) : Action → Prop
  | .ping i .timeout => s.client.pingCancel = some i → s.client.live.isSome →
    ∀ l ∈ s.client.loops[i]?, l.expired = s.client.live
  | .go k _ =>
    match s.procs[k]? with
    | some .lost | some .stopPing => ¬ Established s.client
    | some (.startPing conn gen) =>
      s.client.closed = false → gen = s.client.generation → conn ∉ s.client.failed →
        s.client.connected ∧ ∀ i ∈ s.client.pingCancel, Runs s.client i
    | _ => True
  | _ => True

instance {s : State} : DecidablePred (Tended s) := fun a => by
  unfold Tended
  split <;> try infer_instance
  split <;> infer_instance

structure Kept (c : Client) : Prop where
  unique : ∀ i l, c.loops[i]? = some l → l.running → l.cancelled = false → c.pingCancel = some i
  stored : ∀ i, c.pingCancel = some i → ∃ l, c.loops[i]? = some l ∧ l.cancelled = false
  ctx : c.ctxDone → c.closed
  connected : Established c → c.connected
  pinging : Established c → ∃ i, c.pingCancel = some i ∧ Runs c i

variable {o : Options} {s t : State} {a : Action} {e : Event} {c c' : Client} {p : Proc}
  {ps : List Proc}

structure SamePing (c c' : Client) : Prop where
  loops : c'.loops = c.loops
  pingCancel : c'.pingCancel = c.pingCancel
  ctx : c'.ctxDone → c'.closed ∨ c.ctxDone
  closed : c.closed → c'.closed
  live : c'.live.isSome → c.live.isSome
  connected : Established c' → c.connected → c'.connected

theorem Kept.same (h : Kept c) (hsame : SamePing c c') : Kept c' := by
  obtain ⟨hloops, hcancel, hctx, hclosed, hlive, hconnected⟩ := hsame
  have hest : Established c' → Established c := by
    rintro ⟨hopen, hl⟩
    refine ⟨?_, hlive hl⟩
    by_contra hc
    rw [hclosed (Bool.not_eq_false _ ▸ hc)] at hopen
    cases hopen
  refine ⟨?_, ?_, ?_, fun hest' => hconnected hest' (h.connected (hest hest')), ?_⟩
  · rw [hloops, hcancel]
    exact h.unique
  · rw [hloops, hcancel]
    exact h.stored
  · exact fun hdone => (hctx hdone).elim id fun hold => hclosed (h.ctx hold)
  · intro hest'
    obtain ⟨i, hi, hruns⟩ := h.pinging (hest hest')
    exact ⟨i, hcancel.trans hi, by rwa [Runs, hloops]⟩

theorem samePing_closeTransport {conn : Nat} : SamePing c (c.closeTransport conn) := by
  refine ⟨rfl, rfl, .inr, id, ?_, fun _ => id⟩
  simp only [closeTransport]
  split_ifs
  · exact nofun
  · exact id

theorem samePing_of_advance (h : advance o e c p = some (c', ps)) (hstop : p ≠ .stopPing)
    (hclose : p ≠ .closePing) (hstart : ∀ conn gen, p ≠ .startPing conn gen)
    (hlost : p = .lost → ¬ Established c) (hcancel : p = .disconnect ∨ p = .cancel → c.closed) :
    SamePing c c' := by
  cases p <;> simp only [advance] at h <;> constructor <;>
    grind [closeTransport, makeChannels, closeConnectedCh, closeErrCh,
      sendErr, deliver, rejectPending, closePending, Established]

theorem getElem?_of_modify {loops : List PingLoop} {i j : Nat} {f : PingLoop → PingLoop}
    {l : PingLoop} (h : (loops.modify i f)[j]? = some l) :
    ∃ l', loops[j]? = some l' ∧ l = if i = j then f l' else l' := by
  rw [List.getElem?_modify] at h
  obtain ⟨l', hl', rfl⟩ := Option.map_eq_some_iff.mp h
  exact ⟨l', hl', rfl⟩

theorem Kept.cancelPing (h : Kept c) (hno : ¬ Established c) : Kept c.cancelPing := by
  refine ⟨?_, nofun, h.ctx, h.connected, fun hest => absurd hest hno⟩
  intro j l hl hrunning hlive
  exfalso
  simp only [Client.cancelPing] at hl
  cases hc : c.pingCancel with
  | none =>
    rw [hc] at hl
    cases hc.symm.trans (h.unique j l hl hrunning hlive)
  | some i =>
    rw [hc] at hl
    obtain ⟨l', hl', rfl⟩ := getElem?_of_modify hl
    split_ifs at hrunning hlive with hij
    cases hc.symm.trans (h.unique j l' hl' hrunning hlive)
    exact hij rfl

/-- A loop that is not stored may end, and so may the stored one without a connection. -/
theorem Kept.modify {i : Nat} {f : PingLoop → PingLoop} (h : Kept c)
    (hcancelled : ∀ l, (f l).cancelled = l.cancelled) (hrunning : ∀ l, (f l).running → l.running)
    (hkeep : c.pingCancel = some i → Established c → ∀ l, l.running → (f l).running) :
    Kept { c with loops := c.loops.modify i f } := by
  refine ⟨?_, ?_, h.ctx, h.connected, fun hest => ?_⟩
  · intro j l hl hruns hlive
    obtain ⟨l', hl', rfl⟩ := getElem?_of_modify hl
    split_ifs at hruns hlive
    · exact h.unique j l' hl' (hrunning l' hruns) (hcancelled l' ▸ hlive)
    · exact h.unique j l' hl' hruns hlive
  · intro j hj
    obtain ⟨l, hl, hlive⟩ := h.stored j hj
    refine ⟨_, (List.getElem?_modify ..).trans (congrArg _ hl), ?_⟩
    split_ifs
    · rw [hcancelled, hlive]
    · exact hlive
  · obtain ⟨j, hj, l, hl, hruns⟩ := h.pinging hest
    refine ⟨j, hj, _, (List.getElem?_modify ..).trans (congrArg _ hl), ?_⟩
    split_ifs with hij
    · exact hkeep (hij ▸ hj) hest l hruns
    · exact hruns

theorem Kept.stopLoop {i : Nat} (h : Kept c) (hno : c.pingCancel = some i → ¬ Established c) :
    Kept (stopLoop c i) :=
  h.modify (fun _ => rfl) nofun fun hi hest => absurd hest (hno hi)

theorem Kept.startPing {conn gen : Nat} (ho : 0 < o.pingInterval) (h : Kept c)
    (htended : c.closed = false → gen = c.generation → conn ∉ c.failed →
      c.connected ∧ ∀ i ∈ c.pingCancel, Runs c i)
    (hadv : advance o e c (.startPing conn gen) = some (c', ps)) : Kept c' := by
  cases hadv
  have hpos : ¬ o.pingInterval ≤ 0 := by omega
  -- a connection that is established afterwards was so before, or is this one
  have hest : ∀ c₀ : Client, c₀.closed = c.closed → Established { c₀ with
      live := if gen = c.generation ∧ conn ∉ c.failed then some conn else c.live } →
      c.connected ∧ ∀ i ∈ c.pingCancel, Runs c i := by
    rintro c₀ hclosed ⟨hopen, hlive⟩
    rw [hclosed] at hopen
    split_ifs at hlive with hnew
    · exact htended hopen hnew.1 hnew.2
    · obtain ⟨i, hi, hruns⟩ := h.pinging ⟨hopen, hlive⟩
      refine ⟨h.connected ⟨hopen, hlive⟩, fun j hj => ?_⟩
      cases hi.symm.trans hj
      exact hruns
  cases hc : c.pingCancel with
  | some i =>
    have hsame : c.startPingLoop o = c := by simp [startPingLoop, hc]
    rw [hsame]
    exact ⟨h.unique, h.stored, h.ctx, fun h' => (hest c rfl h').1,
      fun h' => ⟨i, hc, (hest c rfl h').2 i hc⟩⟩
  | none =>
    have hnew : c.startPingLoop o = { c with
        pingCancel := some c.loops.length, loops := c.loops ++ [⟨true, false, none⟩] } := by
      simp [startPingLoop, hc, hpos]
    have hlast : (c.loops ++ [⟨true, false, none⟩])[c.loops.length]? = some ⟨true, false, none⟩ := by
      simp
    rw [hnew]
    refine ⟨?_, ?_, h.ctx, fun h' => (hest _ rfl h').1, fun _ => ⟨_, rfl, _, hlast, rfl⟩⟩
    · intro j l hl hrunning hlive
      rw [List.getElem?_snoc] at hl
      split_ifs at hl with hj
      · rw [hj]
      · cases hc.symm.trans (h.unique j l hl hrunning hlive)
    · rintro j ⟨⟩
      exact ⟨_, hlast, rfl⟩

theorem Kept.ping {i : Nat} {l : PingLoop} {how : Ping} (h : Kept s.client)
    (htended : Tended s (.ping i how)) (hl : s.client.loops[i]? = some l)
    (hping : pingStep s.client i l how = some c') : Kept c' := by
  cases how with
  | expire =>
    simp only [pingStep] at hping
    split_ifs at hping
    cases hping
    exact h.modify (fun _ => rfl) (fun _ => id) fun _ _ _ => id
  | done =>
    simp only [pingStep] at hping
    split_ifs at hping with hdone
    cases hping
    refine h.stopLoop fun hi hest => ?_
    obtain ⟨l', hl', hlive⟩ := h.stored i hi
    cases hl.symm.trans hl'
    rcases hdone.2 with hcancelled | hctx
    · cases hlive.symm.trans hcancelled
    · cases hest.1.symm.trans (h.ctx hctx)
  | timeout =>
    simp only [pingStep] at hping
    split at hping
    · rename_i conn hconn
      cases hping
      refine (h.same samePing_closeTransport).stopLoop fun hi hest => ?_
      have hlive := htended hi (samePing_closeTransport.live hest.2) l hl
      have hnone := hest.2
      simp [closeTransport, ← hlive, hconn] at hnone
    · cases hping
  | tick =>
    simp only [pingStep] at hping
    split_ifs at hping with hidle
    cases hping
    refine h.stopLoop fun _ hest => ?_
    cases hidle.2.symm.trans (h.connected hest)

theorem Kept.step (ho : 0 < o.pingInterval) (hdone : ∀ p ∈ s.procs, Done s.client p)
    (htended : Tended s a) (hstep : step o s a = some t) (h : Kept s.client) :
    Kept t.client := by
  obtain ⟨heq, -⟩ | ⟨-, ⟨conn, heq⟩ | ⟨i, heq⟩⟩ | ⟨-, i, how, l, rfl, hl, -, hping⟩ |
    ⟨k, e, p, ps, rfl, hp, hadv, -⟩ := step_cases hstep
  · rwa [heq]
  · rw [heq]
    exact h.same samePing_closeTransport
  · rw [heq]
    exact h.same ⟨rfl, rfl, .inr, id, id, fun _ => id⟩
  · exact h.ping htended hl hping
  · have hd := hdone p (List.mem_of_getElem? hp)
    obtain ⟨c, procs⟩ := t
    simp only [Tended, hp] at htended
    cases p with
    | stopPing =>
      cases hadv
      exact h.cancelPing htended
    | closePing =>
      cases hadv
      refine h.cancelPing fun hest => ?_
      cases hd.1.symm.trans hest.1
    | startPing conn gen => exact h.startPing ho htended hadv
    | lost =>
      exact h.same (samePing_of_advance hadv (by simp) (by simp) (by simp) (fun _ => htended)
        (by simp))
    | cancel =>
      exact h.same (samePing_of_advance hadv (by simp) (by simp) (by simp) (by simp) fun _ => hd.1)
    | disconnect =>
      exact h.same (samePing_of_advance hadv (by simp) (by simp) (by simp) (by simp) fun _ => hd)
    | _ => exact h.same (samePing_of_advance hadv (by simp) (by simp) (by simp) (by simp) (by simp))

/-- Along a run in which every step meets the condition above, exactly one ping loop with a live
context runs whenever a connection is established. -/
theorem one_ping_loop {as : List Action} (ho : 0 < o.pingInterval) (hrun : run o .start as = some s)
    (htended : Transition.Along (step o) Tended .start as)
    (hest : Established s.client) : ∃! i, Pings s.client i := by
  have hkept : (∀ p ∈ s.procs, Done s.client p) ∧ Kept s.client :=
    Transition.invariant_along (P := fun s => (∀ p ∈ s.procs, Done s.client p) ∧ Kept s.client)
      ⟨(fun _ hp => by cases hp), (fun _ _ hl => by cases hl), (fun _ hi => by cases hi),
        (fun h => by cases h), (fun h => by cases h.2), (fun h => by cases h.2)⟩
      (fun _ _ _ h hok hstep => ⟨done_step h.1 hstep, h.2.step ho h.1 hok hstep⟩) hrun htended
  obtain ⟨hunique, hstored, hctx, -, hpinging⟩ := hkept.2
  obtain ⟨i, hi, l, hl, hrunning⟩ := hpinging hest
  obtain ⟨l', hl', hlive⟩ := hstored i hi
  cases hl.symm.trans hl'
  have hopen : s.client.ctxDone = false := by
    cases hdone : s.client.ctxDone with
    | false => rfl
    | true => cases (hctx hdone).symm.trans hest.1
  refine ⟨i, ⟨l, hl, hrunning, hlive, hopen⟩, ?_⟩
  rintro j ⟨l', hj, hrunning', hlive', -⟩
  exact Option.some.inj ((hunique j l' hj hrunning' hlive').symm.trans hi)

/-- The connection drops and the reconnect loop cancels the ping loop and connects again; the
cancelled loop returns late. Then the application connects once more on top of that. -/
def reconnected : List Action :=
  established 0 ++ [.fail 0, .go 0 .failed] ++ List.replicate 10 (.go 0 .ok) ++
    [.go 0 .connected, .go 1 .ok, .go 1 .ok, .go 0 .ok, .ping 0 .done] ++ established 1

theorem one_ping_loop_reconnected : ∃ s, run ⟨1, true, 0⟩ .start reconnected = some s ∧
    Established s.client ∧ ∃! i, Pings s.client i := by
  have hrun : run ⟨1, true, 0⟩ .start reconnected = some _ := rfl
  exact ⟨_, hrun, by decide +kernel,
    one_ping_loop (by decide) hrun (by decide +kernel) (by decide +kernel)⟩

/-- The client is connected, the connection drops, the ping loop ends at its next tick, and the
application connects again. -/
theorem no_ping_loop : ∃ s, run ⟨1, false, 0⟩ .start (established 0 ++
    [.fail 0, .go 0 .failed, .go 0 .ok, .go 0 .ok, .ping 0 .tick] ++ established 0) = some s ∧
    Established s.client ∧ ∀ l ∈ s.client.loops, l.running = false :=
  ⟨_, rfl, by decide +kernel, by decide +kernel⟩

end MessageLoop.SDK.Lifecycle
