import MessageLoop.Session.PresenceModes
import MessageLoop.Session.PresenceStore

/-!
The presence store agrees with the subscriptions of a session when what removes a subscription does
not overlap other operations on the channel. Seen from one channel, each step of the operations is a
step of `PresenceSpots`, or none at all.
-/

namespace MessageLoop.PresenceStore

open PresenceEvents Locks List Transition Operation

namespace Operation

def spot (op : Operation) : Spot :=
  match op.kind with
  | .subscribe origin =>
    match op.stage with
    | .call a => .joining op.already origin.ephemeral a.phase
    | .gate => .gate
    | .store true => .adding
    | .store false => .takeOut
    | .added => .added
    | .undo a => .undoing a.phase
    | .ready | .look | .done => .idle
  | .unsubscribe _ =>
    match op.stage with
    | .look => .looking op.already
    | .call a => .leaving op.already op.ephemeral a.phase
    | .store _ => .leave
    | _ => .idle
  | .close =>
    match op.stage with
    | .ready => .closing
    | .store _ => .closeStore
    | .call a => .closeCall a.phase
    | _ => .idle
  | .refresh =>
    match op.stage with
    | .ready => .refreshing
    | .store _ => .adding
    | _ => .idle

def Fits (e : Env) (op : Operation) : Prop :=
  match op.kind with
  | .subscribe origin =>
    match op.stage with
    | .look => False
    | .call a => a.Adding e.session op.channel origin.ephemeral
    | .undo a => a.Removing e.session op.channel
    | _ => True
  | .unsubscribe _ =>
    match op.stage with
    | .ready | .look | .done => True
    | .call a => a.Removing e.session op.channel
    | .store add => add = false
    | _ => False
  | .close =>
    match op.stage with
    | .ready | .done => True
    | .call a => a.Removing e.session op.channel
    | .store add => add = false
    | _ => False
  | .refresh =>
    match op.stage with
    | .ready | .done => True
    | .store add => add = true
    | _ => False

end Operation

def seat (e : Env) (n : Node) (present : Finset String) (ch : String) : Seat :=
  (n.view e.session).seat ch (decide (ch ∈ present))

variable {e : Env} {n t : Node} {present present' : Finset String} {op op' : Operation}
variable {a b : SubCall} {ch : String}

section Turns
variable {fail : Bool}

structure Takes (e : Env) (n : Node) (present : Finset String) (op : Operation) (t : Node)
    (present' : Finset String) (op' : Operation) : Prop where
  channel : op'.channel = op.channel
  kind : op'.kind = op.kind
  fits : op'.Fits e
  others : ∀ x, x ≠ op.channel → seat e t present' x = seat e n present x
  turn : Turn (shouldTrackPresence e op.channel) (seat e n present op.channel) op.spot
    (seat e t present' op.channel) op'.spot

theorem takes_quiet (hchannel : op'.channel = op.channel) (hkind : op'.kind = op.kind)
    (hfits : op'.Fits e)
    (hturn : Turn (shouldTrackPresence e op.channel) (seat e n present op.channel) op.spot
      (seat e n present op.channel) op'.spot) : Takes e n present op n present op' :=
  ⟨hchannel, hkind, hfits, fun _ _ => rfl, hturn⟩

theorem takes_write {now : Bool} (hpresent : ∀ x, x ∈ present' ↔
      if x = op.channel then now = true else x ∈ present) (hchannel : op'.channel = op.channel)
    (hkind : op'.kind = op.kind) (hfits : op'.Fits e)
    (hturn : Turn (shouldTrackPresence e op.channel) (seat e n present op.channel) op.spot
      { seat e n present op.channel with present := now } op'.spot) :
    Takes e n present op n present' op' := by
  refine ⟨hchannel, hkind, hfits, ?_, ?_⟩
  · intro x hx
    simp [seat, hpresent, hx]
  · have hseat : seat e n present' op.channel =
        { seat e n present op.channel with present := now } := by
      simp [seat, SessionView.seat, hpresent]
    rw [hseat]
    exact hturn

theorem takes_moves {R : Seat → Phase → Seat → Phase → Prop} {p q : Phase}
    (hmoves : MovesSeat R n t e.session op.channel p q) (hchannel : op'.channel = op.channel)
    (hkind : op'.kind = op.kind) (hfits : op'.Fits e)
    (hturn : ∀ u', R (seat e n present op.channel) p u' q →
      Turn (shouldTrackPresence e op.channel) (seat e n present op.channel) op.spot u' op'.spot) :
    Takes e n present op t present op' :=
  ⟨hchannel, hkind, hfits, fun x hx => hmoves.others x hx _, hturn _ (hmoves.here _)⟩

theorem takes_returned {r : CallResult} (hstage : op.stage = .call a) (hpc : a.pc = .returned r)
    (hfits : op.Fits e) :
    Takes e n present op n present (op.goto (op.afterCall e (r = .ok))) := by
  obtain ⟨kind, ch, already, ephemeral, stage⟩ := op
  obtain rfl : stage = .call a := hstage
  obtain ⟨op, c, x, sub, flag, pc⟩ := a
  obtain rfl : pc = .returned r := hpc
  cases kind with
  | subscribe origin =>
    cases r with
    | ok =>
      cases already with
      | true => cases origin <;> exact takes_quiet rfl rfl trivial .again
      | false =>
        cases origin with
        | client ephemeral =>
          cases htrack : shouldTrackPresence e ch ephemeral with
          | true =>
            simp only [afterCall, htrack]
            exact takes_quiet rfl rfl trivial (.enter (.inr htrack))
          | false =>
            simp only [afterCall, htrack]
            exact takes_quiet rfl rfl trivial (.skip htrack)
        | command => exact takes_quiet rfl rfl trivial (.enter (.inl rfl))
    | failed k => cases origin <;> exact takes_quiet rfl rfl trivial .refused
    | notRestored => exact absurd rfl (SubCall.Adding.phase hfits)
  | unsubscribe command =>
    have hcall : SubCall.Removing _ e.session ch := hfits
    cases r with
    | ok =>
      cases hleft : already && shouldTrackPresence e ch ephemeral with
      | true =>
        obtain ⟨rfl, htrack⟩ := (Bool.and_eq_true _ _).mp hleft
        simp only [afterCall, htrack]
        exact takes_quiet rfl rfl rfl (.depart htrack)
      | false =>
        have hdone : ∀ a, afterCall e ⟨.unsubscribe command, ch, already, ephemeral, a⟩
            true = .done := by
          simp [afterCall, hleft]
        rw [show (decide (CallResult.ok = .ok)) = true from rfl, hdone]
        exact takes_quiet rfl rfl trivial (.gone hleft)
    | failed k => exact absurd rfl hcall.forward.2
    | notRestored => exact absurd rfl hcall.phase
  | close =>
    have hcall : SubCall.Removing _ e.session ch := hfits
    cases r with
    | ok => exact takes_quiet rfl rfl trivial .closed
    | failed k => exact absurd rfl hcall.forward.2
    | notRestored => exact absurd rfl hcall.phase
  | refresh => exact False.elim hfits

theorem removes_of_step (hcall : a.Removing e.session ch)
    (hknows : a.phase = .locked → (seat e n present ch).record ≠ none)
    (h : a.step n true = some (t, b)) :
    b.Removing e.session ch ∧ MovesSeat Removes n t e.session ch a.phase b.phase := by
  apply hcall.step _ h
  intro hphase hnone
  exact hknows hphase (seat_record_eq_none.mpr hnone)

theorem takes_call (hstage : op.stage = .call a) (hfits : op.Fits e)
    (hknows : Knows (seat e n present op.channel) op.spot) (h : a.step n true = some (t, b)) :
    Takes e n present op t present (op.goto (.call b)) := by
  obtain ⟨kind, ch, already, ephemeral, stage⟩ := op
  obtain rfl : stage = .call a := hstage
  cases kind with
  | subscribe origin =>
    have hcall : a.Adding e.session ch origin.ephemeral := hfits
    have hnone : a.phase = .locked → n.lookupSubscriber ch e.session = none := by
      intro hphase
      simp only [spot, hphase] at hknows
      exact seat_record_eq_none.mp hknows.1
    obtain ⟨hcall', hmoves⟩ := hcall.step hnone h
    exact takes_moves hmoves rfl rfl hcall' fun u' hadds => .join hadds
  | unsubscribe command =>
    obtain ⟨hcall', hmoves⟩ := removes_of_step hfits
      (fun hphase => by simpa only [spot, hphase, Knows] using hknows) h
    exact takes_moves hmoves rfl rfl hcall' fun u' hremoves => .remove hremoves
  | close =>
    obtain ⟨hcall', hmoves⟩ := removes_of_step hfits
      (fun hphase => by simpa only [spot, hphase, Knows] using hknows) h
    exact takes_moves hmoves rfl rfl hcall' fun u' hremoves => .closeCall hremoves
  | refresh => exact False.elim hfits

theorem takes_undo (hstage : op.stage = .undo a) (hfits : op.Fits e)
    (hknows : Knows (seat e n present op.channel) op.spot) (h : a.step n true = some (t, b)) :
    Takes e n present op t present (op.goto (.undo b)) := by
  obtain ⟨kind, ch, already, ephemeral, stage⟩ := op
  obtain rfl : stage = .undo a := hstage
  cases kind with
  | subscribe origin =>
    obtain ⟨hcall', hmoves⟩ := removes_of_step hfits
      (fun hphase => by simpa only [spot, hphase, Knows] using hknows) h
    exact takes_moves hmoves rfl rfl hcall' fun u' hremoves => .undo hremoves
  | unsubscribe command | close | refresh => exact False.elim hfits

theorem takes_undone {r : CallResult} {origin : Origin} (hstage : op.stage = .undo a)
    (hkind : op.kind = .subscribe origin) (hpc : a.pc = .returned r) (hfits : op.Fits e) :
    Takes e n present op n present (op.goto
      (if shouldTrackPresence e op.channel origin.ephemeral then .store false else .done)) := by
  obtain ⟨kind, ch, already, ephemeral, stage⟩ := op
  obtain rfl : stage = .undo a := hstage
  obtain rfl : kind = .subscribe origin := hkind
  have hcall : a.Removing e.session ch := hfits
  have hphase : a.phase = (Pc.returned r).phase := congrArg Pc.phase hpc
  cases r with
  | ok =>
    have hturn : ∀ q, q = .takeOut ∨ q = .idle →
        Turn (shouldTrackPresence e ch) (seat e n present ch) (.undoing a.phase)
          (seat e n present ch) q := by
      intro q hq
      rw [hphase]
      exact .undone hq
    cases htrack : shouldTrackPresence e ch origin.ephemeral with
    | true => exact takes_quiet rfl rfl trivial (hturn _ (.inl rfl))
    | false => exact takes_quiet rfl rfl trivial (hturn _ (.inr rfl))
  | failed k => exact absurd hphase hcall.forward.2
  | notRestored => exact absurd hphase hcall.phase

variable (h : op.advance e n present fail = some (t, present', op'))
include h

theorem takes_ready (hstage : op.stage = .ready) : Takes e n present op t present' op' := by
  obtain ⟨kind, ch, already, ephemeral, stage⟩ := op
  obtain rfl : stage = .ready := hstage
  have hsome : (n.lookupSubscriber ch e.session).isSome = (seat e n present ch).record.isSome :=
    (Option.isSome_map).symm
  cases kind with
  | subscribe origin =>
    cases origin with
    | client ephemeral =>
      cases h
      exact takes_quiet rfl rfl SubCall.adding_add (.subscribe (.inl rfl))
    | command =>
      cases h
      exact takes_quiet rfl rfl SubCall.adding_add (.subscribe (.inr hsome))
  | unsubscribe command =>
    cases command with
    | false =>
      cases h
      exact takes_quiet rfl rfl trivial .look
    | true =>
      cases h
      refine takes_quiet rfl rfl SubCall.removing_remove ?_
      simp only [spot, hsome]
      exact .command
  | close =>
    cases htrack : shouldTrackPresence e ch (storedEphemeral e n ch) with
    | false =>
      simp only [advance, htrack] at h
      cases h
      exact takes_quiet rfl rfl SubCall.removing_remove (.unstored htrack)
    | true =>
      simp only [advance, htrack] at h
      cases h
      exact takes_quiet rfl rfl rfl (.close htrack)
  | refresh =>
    cases htrack : shouldTrackPresence e ch (storedEphemeral e n ch) with
    | false =>
      simp only [advance, htrack] at h
      cases h
      exact takes_quiet rfl rfl trivial (.unrefreshed htrack)
    | true =>
      simp only [advance, htrack] at h
      cases h
      exact takes_quiet rfl rfl rfl (.refresh htrack)

variable (hfits : op.Fits e)
include hfits

theorem takes_gate (hstage : op.stage = .gate) : Takes e n present op t present' op' := by
  obtain ⟨kind, ch, already, ephemeral, stage⟩ := op
  obtain rfl : stage = .gate := hstage
  cases kind with
  | subscribe origin =>
    cases htrack : shouldTrackPresence e ch (storedEphemeral e n ch) with
    | true =>
      simp only [advance, htrack] at h
      cases h
      exact takes_quiet rfl rfl trivial (.pass htrack)
    | false =>
      simp only [advance, htrack] at h
      cases h
      cases origin with
      | client ephemeral => exact takes_quiet rfl rfl trivial (.stop htrack (.inl rfl))
      | command => exact takes_quiet rfl rfl trivial (.stop htrack (.inr rfl))
  | unsubscribe command | close | refresh => exact False.elim hfits

theorem takes_store {add : Bool} (hstage : op.stage = .store add) :
    Takes e n present op t present' op' := by
  obtain ⟨kind, ch, already, ephemeral, stage⟩ := op
  obtain rfl : stage = .store add := hstage
  cases add with
  | true =>
    cases h
    cases kind with
    | subscribe origin =>
      cases origin with
      | client ephemeral => exact takes_write (fun _ => by grind) rfl rfl trivial (.add (.inl rfl))
      | command => exact takes_write (fun _ => by grind) rfl rfl trivial (.add (.inr rfl))
    | refresh => exact takes_write (fun _ => by grind) rfl rfl trivial (.add (.inr rfl))
    | unsubscribe command | close => cases hfits
  | false =>
    cases h
    cases kind with
    | subscribe origin => exact takes_write (fun _ => by grind) rfl rfl trivial .takeOut
    | unsubscribe command => exact takes_write (fun _ => by grind) rfl rfl trivial .leave
    | close => exact takes_write (fun _ => by grind) rfl rfl SubCall.removing_remove .closeStore
    | refresh => cases hfits

theorem takes_added (hstage : op.stage = .added) : Takes e n present op t present' op' := by
  obtain ⟨kind, ch, already, ephemeral, stage⟩ := op
  obtain rfl : stage = .added := hstage
  cases kind with
  | subscribe origin =>
    by_cases hfail : fail = true ∧ (n.sessions e.session).state = .closed
    · simp only [advance, if_pos hfail] at h
      cases h
      exact takes_quiet rfl rfl SubCall.removing_remove (.fail (decide_eq_true hfail.2))
    · simp only [advance, if_neg hfail] at h
      cases h
      exact takes_quiet rfl rfl trivial .kept
  | unsubscribe command | close | refresh => exact False.elim hfits

theorem takes_of_advance (hknows : Knows (seat e n present op.channel) op.spot) :
    Takes e n present op t present' op' := by
  cases hstage : op.stage with
  | ready => exact takes_ready h hstage
  | look =>
    obtain ⟨kind, ch, already, ephemeral, stage⟩ := op
    obtain rfl : stage = .look := hstage
    cases h
    cases kind with
    | unsubscribe command => exact takes_quiet rfl rfl SubCall.removing_remove .looked
    | subscribe origin | close | refresh => exact False.elim hfits
  | call a =>
    simp only [advance, hstage] at h
    split at h
    next r hpc =>
      cases h
      exact takes_returned hstage hpc hfits
    next =>
      obtain ⟨⟨t, b⟩, hstep, heq⟩ := Option.map_eq_some_iff.mp h
      cases heq
      exact takes_call hstage hfits hknows hstep
  | gate => exact takes_gate h hfits hstage
  | store add => exact takes_store h hfits hstage
  | added => exact takes_added h hfits hstage
  | undo a =>
    simp only [advance, hstage] at h
    split at h
    next r hpc =>
      split at h
      next origin hkind =>
        cases h
        exact takes_undone hstage hkind hpc hfits
      next => cases h
    next =>
      obtain ⟨⟨t, b⟩, hstep, heq⟩ := Option.map_eq_some_iff.mp h
      cases heq
      exact takes_undo hstage hfits hknows hstep
  | done =>
    simp only [advance, hstage] at h
    cases h

end Turns

section Spots

theorem phase_before (h : a.phase = .before) : a.acquires = true := by
  obtain ⟨op, c, ch, sub, flag, pc⟩ := a
  cases pc with
  | start => rfl
  | commit k | rollback failed k => cases k <;> cases h
  | returned r => cases r <;> cases h
  | _ => cases h

theorem holds_of_phase (h : a.phase.holds = true) : a.holds = true := by
  obtain ⟨op, c, ch, sub, flag, pc⟩ := a
  cases pc with
  | commit k | rollback failed k => rfl
  | returned r => cases r <;> cases h
  | _ => cases h

namespace Operation

theorem acquires_of_spot (h : op.spot.phase = .before) : op.acquires = true := by
  obtain ⟨kind, ch, already, ephemeral, stage⟩ := op
  cases kind <;> cases stage <;> first
    | exact phase_before h
    | (rename_i add; cases add <;> cases h)
    | cases h

theorem holds_of_spot (h : op.spot.holds) : op.holds = true := by
  obtain ⟨kind, ch, already, ephemeral, stage⟩ := op
  cases kind <;> cases stage <;> first
    | exact holds_of_phase h
    | (rename_i add; cases add <;> cases h)
    | cases h

theorem underway_of_spot (h : op.spot.underway) : op.underway := by
  obtain ⟨kind, ch, already, ephemeral, stage⟩ := op
  cases kind <;> cases stage <;> first
    | exact absurd h id
    | exact ⟨nofun, fun heq => by first | rfl | cases heq⟩

theorem spot_underway (hfits : op.Fits e) (h : op.underway) : op.spot.underway := by
  obtain ⟨kind, ch, already, ephemeral, stage⟩ := op
  cases kind <;> cases stage <;> first
    | trivial
    | exact absurd rfl h.1
    | exact False.elim hfits
    | cases h.2 rfl
    | (rename_i add; cases add <;> trivial)

theorem removes_of_spot (h : op.spot.removing) : op.kind.removes = true := by
  obtain ⟨kind, ch, already, ephemeral, stage⟩ := op
  cases kind with
  | unsubscribe command | close => rfl
  | subscribe origin | refresh =>
    cases stage <;> first
      | cases h
      | (rename_i add; cases add <;> cases h)

end Operation

end Spots

section Channels
variable {s t : State} {a : Action} {k : Nat}
variable {channels : List String}

def spotAt (ch : String) (op : Operation) : Spot :=
  if op.channel = ch then op.spot else .idle

namespace State

def spots (s : State) (ch : String) : List Spot :=
  s.ops.map (spotAt ch)

def seat (s : State) (e : Env) (ch : String) : Seat :=
  PresenceStore.seat e s.node s.present ch

end State

theorem spotAt_self (h : op.channel = ch) : spotAt ch op = op.spot := if_pos h

theorem spotAt_of_ne (h : op.channel ≠ ch) : spotAt ch op = .idle := if_neg h

theorem mem_spots {d : Spot} (hd : d ∈ s.spots ch) :
    d = .idle ∨ ∃ op ∈ s.ops, op.channel = ch ∧ d = op.spot := by
  obtain ⟨op, hop, rfl⟩ := mem_map.mp hd
  by_cases hch : op.channel = ch
  · exact .inr ⟨op, hop, hch, spotAt_self hch⟩
  · exact .inl (spotAt_of_ne hch)

def StepAt (e : Env) (ch : String) (s t : State) : Prop :=
  Step (shouldTrackPresence e ch) (s.seat e ch) (s.spots ch) (t.seat e ch) (t.spots ch) ∨
    t.seat e ch = s.seat e ch ∧ t.spots ch = s.spots ch

theorem Begins.spots (h : Begins s op) (hch : op.channel = ch) {d : Spot} (hd : d ∈ s.spots ch)
    (hunderway : d.underway) : op.kind.removes = false ∧ ¬ d.removing := by
  rcases mem_spots hd with rfl | ⟨other, hother, hchannel, rfl⟩
  · cases hunderway
  · obtain ⟨hop, hkind⟩ := h other hother (hchannel.trans hch.symm)
      (underway_of_spot hunderway)
    refine ⟨hop, ?_⟩
    intro hremoving
    rw [removes_of_spot hremoving] at hkind
    cases hkind

theorem stepAt_advance (hk : s.ops[k]? = some op) (hfits : op.Fits e) (hfree : ¬ s.blocked op)
    (hapart : ¬ op.underway → Begins s op) (htakes : Takes e s.node s.present op n present op') :
    StepAt e ch s ⟨n, present, s.ops.set k op'⟩ := by
  have hspots : State.spots ⟨n, present, s.ops.set k op'⟩ ch = (s.spots ch).set k (spotAt ch op') :=
    map_set
  have hat : (s.spots ch)[k]? = some (spotAt ch op) := by
    rw [State.spots, getElem?_map, hk]
    rfl
  by_cases hch : op.channel = ch
  · rw [spotAt_self hch] at hat
    rw [spotAt_self (htakes.channel.trans hch)] at hspots
    left
    rw [hspots]
    refine .turn hat (hch ▸ htakes.turn) ?_ ?_
    · intro hbefore d hd hholds
      rcases mem_spots hd with rfl | ⟨other, hother, hchannel, rfl⟩
      · cases hholds
      · exact hfree ⟨acquires_of_spot hbefore, other, hother, hchannel.trans hch.symm,
          holds_of_spot hholds⟩
    · intro hidle d hd hunderway
      have hbegins := hapart fun hop => hidle (spot_underway hfits hop)
      obtain ⟨hkind, hremoving⟩ := hbegins.spots hch hd hunderway
      refine ⟨?_, hremoving⟩
      intro hq
      have hremoves := removes_of_spot hq
      rw [htakes.kind, hkind] at hremoves
      cases hremoves
  · right
    refine ⟨htakes.others ch fun heq => hch heq.symm, ?_⟩
    rw [spotAt_of_ne hch] at hat
    rw [hspots, spotAt_of_ne (fun heq => hch (htakes.channel.symm.trans heq))]
    obtain ⟨hlt, hget⟩ := List.getElem?_eq_some_iff.mp hat
    rw [← hget]
    exact set_getElem_self hlt

theorem spots_spawn (s : State) (kind : Kind) : (s.spawn kind channels).spots ch =
    s.spots ch ++ (channels.map (start kind)).map (spotAt ch) :=
  map_append

theorem stepAt_come {kind : Kind} (hnew : ∀ x ∈ channels, spotAt ch (.start kind x) = .idle ∨
      spotAt ch (.start kind x) = .refreshing ∧ (s.seat e ch).tracked = true ∧
        ∀ d ∈ s.spots ch, ¬ d.removing) : StepAt e ch s (s.spawn kind channels) := by
  left
  rw [spots_spawn]
  exact .come (forall_mem_map.mpr (forall_mem_map.mpr hnew))

theorem seat_tracked_iff : (s.seat e ch).tracked = true ↔ ch ∈ s.node.tracked e.session :=
  decide_eq_true_iff

theorem stepAt_refresh (hchannels : channels.toFinset = s.node.tracked e.session)
    (hapart : ∀ x ∈ channels, Begins s (.start .refresh x)) :
    StepAt e ch s (s.spawn .refresh channels) := by
  apply stepAt_come
  intro x hx
  by_cases hch : x = ch
  · subst hch
    refine .inr ⟨spotAt_self rfl, ?_, ?_⟩
    · rw [seat_tracked_iff, ← hchannels]
      exact mem_toFinset.mpr hx
    · intro d hd hremoving
      exact ((hapart x hx).spots rfl hd hremoving.underway).2 hremoving
  · exact .inl (spotAt_of_ne hch)

theorem seat_markClosed :
    seat e (n.setSession e.session (n.sessions e.session).markClosed) present ch =
      { seat e n present ch with closed := true } := by
  have hview : (n.setSession e.session (n.sessions e.session).markClosed).view e.session =
      { n.view e.session with session := (n.sessions e.session).markClosed } :=
    view_setSession rfl
  unfold seat
  rw [hview]
  rfl

theorem separate_closes (hnodup : channels.Nodup) : Separate Spot.closes Spot.closes
      ((channels.map (start .close)).map (spotAt ch)) := by
  have hat : ∀ (i : Nat) d, ((channels.map (start .close)).map (spotAt ch))[i]? = some d →
      d.closes → channels[i]? = some ch := by
    intro i d hi hd
    rw [getElem?_map, getElem?_map, Option.map_map] at hi
    obtain ⟨x, hx, rfl⟩ := Option.map_eq_some_iff.mp hi
    by_cases hch : x = ch
    · rw [hx, hch]
    · rw [Function.comp_apply, spotAt_of_ne hch] at hd
      cases hd
  intro i j a b hi hj ha hb
  obtain ⟨hi, hget⟩ := List.getElem?_eq_some_iff.mp (hat i a hi ha)
  obtain ⟨hj, hget'⟩ := List.getElem?_eq_some_iff.mp (hat j b hj hb)
  exact hnodup.getElem_inj_iff.mp (hget.trans hget'.symm)

theorem stepAt_close (hopen : ¬ s.closed e) (hnodup : channels.Nodup)
    (hchannels : channels.toFinset = s.node.tracked e.session) : StepAt e ch s (State.spawn { s with
      node := s.node.setSession e.session (s.node.sessions e.session).markClosed } .close
        channels) := by
  left
  have hseat : (State.spawn { s with
      node := s.node.setSession e.session (s.node.sessions e.session).markClosed } .close
        channels).seat e ch = { s.seat e ch with closed := true } := seat_markClosed
  rw [spots_spawn, hseat]
  refine .close (decide_eq_false hopen) ?_ (separate_closes hnodup) ?_
  · refine forall_mem_map.mpr (forall_mem_map.mpr fun x _ => ?_)
    by_cases hch : x = ch
    · exact .inr (spotAt_self hch)
    · exact .inl (spotAt_of_ne hch)
  · rw [seat_tracked_iff, ← hchannels, mem_toFinset]
    constructor
    · intro hch
      exact mem_map.mpr ⟨.start .close ch, mem_map_of_mem hch, spotAt_self rfl⟩
    · intro hclosing
      obtain ⟨op, hop, heq⟩ := mem_map.mp hclosing
      obtain ⟨x, hx, rfl⟩ := mem_map.mp hop
      by_cases hch : x = ch
      · exact hch ▸ hx
      · rw [spotAt_of_ne hch] at heq
        cases heq

structure Kept (e : Env) (s : State) : Prop where
  fits : ∀ op ∈ s.ops, op.Fits e
  sound : ∀ ch, Sound (s.seat e ch) (s.spots ch)
  mode : ∀ ch, shouldTrackPresence e ch false = true → Mode (s.seat e ch) (s.spots ch)

theorem shouldTrackPresence_eq_not (h : shouldTrackPresence e ch false = true) (b : Bool) :
    shouldTrackPresence e ch b = !b := by
  unfold shouldTrackPresence at h ⊢
  cases b with
  | false => exact h
  | true => rfl

theorem Kept.of_stepAt (h : Kept e s) (hfits : ∀ op ∈ t.ops, op.Fits e)
    (hstep : ∀ ch, StepAt e ch s t) : Kept e t where
  fits := hfits
  sound := by
    intro ch
    rcases hstep ch with hstep | ⟨hseat, hspots⟩
    · exact (h.sound ch).step hstep
    · rw [hseat, hspots]
      exact h.sound ch
  mode := by
    intro ch htrack
    rcases hstep ch with hstep | ⟨hseat, hspots⟩
    · exact hstep.mode (shouldTrackPresence_eq_not htrack) (h.sound ch) (h.mode ch htrack)
    · rw [hseat, hspots]
      exact h.mode ch htrack

theorem Kept.step (h : Kept e s) (hothers : Others e s a) (hapart : Apart s a)
    (hstep : PresenceStore.step e s a = some t) : Kept e t := by
  have hspawn : ∀ kind (channels : List String),
      ∀ op ∈ s.ops ++ channels.map (start kind), op.Fits e := by
    intro kind channels
    refine forall_mem_append.mpr ⟨h.fits, forall_mem_map.mpr fun x _ => ?_⟩
    cases kind <;> trivial
  cases a with
  | subscribe origin x | unsubscribe command x =>
    cases hstep
    refine h.of_stepAt (hspawn _ _) fun ch => stepAt_come ?_
    intro y _
    exact .inl (ite_self _)
  | refresh channels =>
    simp only [PresenceStore.step] at hstep
    split_ifs at hstep with hchannels
    cases hstep
    exact h.of_stepAt (hspawn _ _) fun ch => stepAt_refresh hchannels.2 hapart
  | close channels =>
    simp only [PresenceStore.step] at hstep
    split_ifs at hstep with hclosed hchannels
    · cases hstep
      exact h
    · cases hstep
      exact h.of_stepAt (hspawn _ _) fun ch => stepAt_close hclosed hchannels.1 hchannels.2
  | advance k fail =>
    obtain ⟨op, hk, hstep⟩ := Option.bind_eq_some_iff.mp hstep
    split_ifs at hstep with hblocked
    obtain ⟨⟨n, present, op'⟩, hadvance, rfl⟩ := Option.map_eq_some_iff.mp hstep
    have hmem : op ∈ s.ops := mem_of_getElem? hk
    have hknows : Knows (seat e s.node s.present op.channel) op.spot := by
      apply (h.sound op.channel).knows
      exact mem_map.mpr ⟨op, hmem, spotAt_self rfl⟩
    have htakes := takes_of_advance hadvance (h.fits op hmem) hknows
    apply h.of_stepAt
    · exact forall_mem_set h.fits htakes.fits
    · exact fun ch => stepAt_advance hk (h.fits op hmem) hblocked (hapart op hk) htakes
  | others node =>
    cases hstep
    refine h.of_stepAt h.fits fun ch => .inr ⟨?_, rfl⟩
    show (node.view e.session).seat ch _ = (s.node.view e.session).seat ch _
    rw [show node.view e.session = s.node.view e.session from hothers]

theorem Settled.kept (h : Settled e s) : Kept e s := by
  have hspots : ∀ ch, s.spots ch = [] := by
    intro ch
    rw [State.spots, h.idle]
    rfl
  have hsynced : ∀ ch, Synced (s.seat e ch) := by
    intro ch
    unfold Synced
    rw [seat_tracked_iff, h.tracked, Option.isSome_iff_ne_none]
    exact not_congr (seat_record_eq_none (v := s.node.view e.session)).symm
  have hagrees : ∀ ch, shouldTrackPresence e ch false = true →
      ((s.seat e ch).present = true ↔ (s.seat e ch).record = some false) := by
    intro ch htrack
    rw [show (s.seat e ch).present = true ↔ ch ∈ s.present from decide_eq_true_iff,
      h.agrees ch htrack, and_iff_right h.opened]
    exact Option.map_eq_some_iff.symm
  refine ⟨?_, ?_, ?_⟩
  · intro op hop
    rw [h.idle] at hop
    cases hop
  · intro ch
    rw [hspots ch]
    exact ⟨separate_nil, separate_nil, separate_nil, nofun,
      nofun, fun _ => hsynced ch⟩
  · intro ch htrack
    rw [hspots ch]
    refine .inl ⟨decide_eq_false h.opened, nofun, nofun,
      ?_, ?_⟩
    · intro _ hpresent
      have hrecord := (hagrees ch htrack).mp hpresent
      refine ⟨hrecord, (hsynced ch).mpr ?_⟩
      rw [hrecord]
      exact Option.some_ne_none false
    · exact fun _ hrecord => .inl ((hagrees ch htrack).mpr hrecord)

theorem Kept.agrees (h : Kept e s) (hdone : ∀ op ∈ s.ops, op.stage = .done) : Agrees e s := by
  intro ch htrack
  have hidle : ∀ d ∈ s.spots ch, d = .idle := by
    intro d hd
    rcases mem_spots hd with heq | ⟨op, hop, -, rfl⟩
    · exact heq
    · have hstage := hdone op hop
      obtain ⟨kind, ch, already, ephemeral, stage⟩ := op
      obtain rfl : stage = .done := hstage
      cases kind <;> rfl
  have hsettled := (h.mode ch htrack).settled (h.sound ch) hidle
  rw [show ch ∈ s.present ↔ (s.seat e ch).present = true from decide_eq_true_iff.symm, hsettled]
  apply and_congr
  · exact decide_eq_false_iff_not
  · exact Option.map_eq_some_iff

end Channels

/-- Once all operations on the session are done, the store has it in a tracked channel if it is open
and subscribed without being ephemeral. -/
theorem presence_agrees {e : Env} {s t : State} {as : List Action} (h : Settled e s)
    (hrun : Transition.run (step e) s as = some t)
    (hothers : Transition.Along (step e) (Others e) s as)
    (hapart : Transition.Along (step e) Apart s as) (hdone : ∀ op ∈ t.ops, op.stage = .done) :
    Agrees e t := by
  have hkept : Kept e t :=
    invariant_along h.kept (fun _ _ _ hs hok hstep => hs.step hok.1 hok.2 hstep) hrun
      (along_and (step e) hothers hapart)
  exact hkept.agrees hdone

section Runs

def memberState : State :=
  ⟨acceptedState.node, ∅, []⟩

theorem settled_memberState : Settled memberEnv memberState where
  opened := by decide
  idle := rfl
  tracked := by
    intro ch
    have hnone : memberState.node.lookupSubscriber ch memberEnv.session = none :=
      accepted_acceptedState.unsubscribed ch
    rw [hnone]
    simp [memberState, acceptedState, Node.tracked, Node.new, Session.newClient]
  agrees := by
    intro ch _
    have hnone : memberState.node.lookupSubscriber ch memberEnv.session = none :=
      accepted_acceptedState.unsubscribed ch
    constructor
    · intro hch
      cases hch
    · intro hmember
      obtain ⟨-, r, hr, -⟩ := hmember
      rw [hnone] at hr
      cases hr

def advances (k steps : Nat) : List Action :=
  List.replicate steps (.advance k false)

/-- Two subscriptions of the client overlap, then a refresh and a command; the ephemeral
subscription is taken back. -/
def memberActions : List Action :=
  [.subscribe (.client false) "a", .subscribe (.client true) "b"] ++ advances 0 5 ++ advances 1 9 ++
    advances 0 6 ++ [.refresh ["a", "b"], .subscribe .command "a"] ++ advances 4 2 ++
    advances 2 2 ++ advances 4 1 ++ advances 3 1 ++ [.unsubscribe false "b"] ++ advances 5 9

theorem presence_agrees_member : ∃ t,
    Transition.run (step memberEnv) memberState memberActions = some t ∧
      (∀ op ∈ t.ops, op.stage = .done) ∧ "a" ∈ t.present ∧ "b" ∉ t.present ∧
      Agrees memberEnv t := by
  have hlog : (run (step memberEnv) memberState memberActions).map (fun t =>
      (decide (∀ op ∈ t.ops, op.stage = .done), decide ("a" ∈ t.present ∧ "b" ∉ t.present))) =
        some (true, true) := by
    decide +kernel
  obtain ⟨t, hrun, ht⟩ := Option.map_eq_some_iff.mp hlog
  obtain ⟨hdone, hpresent⟩ := Prod.mk.inj ht
  have hdone := of_decide_eq_true hdone
  obtain ⟨ha, hb⟩ := of_decide_eq_true hpresent
  refine ⟨t, hrun, hdone, ha, hb,
    presence_agrees settled_memberState hrun ?_ (by decide +kernel) hdone⟩
  apply along_of_forall
  intro a ha m
  cases a with
  | others node => simp [memberActions, advances] at ha
  | _ => trivial

/-- A refresh that copies the tracked set before `Close` writes its entry after it: without a record
the subscription counts as not ephemeral. -/
theorem presence_revived : Settled memberEnv memberState ∧ ∃ t,
    Transition.run (step memberEnv) memberState
      ([.subscribe (.client false) "a"] ++ advances 0 11 ++ [.refresh ["a"], .close ["a"]] ++
        advances 2 9 ++ advances 1 2) = some t ∧
      (∀ op ∈ t.ops, op.stage = .done) ∧ t.closed memberEnv ∧ "a" ∈ t.present ∧
      shouldTrackPresence memberEnv "a" false = true ∧ ¬ Agrees memberEnv t := by
  have hlog : (run (step memberEnv) memberState
      ([.subscribe (.client false) "a"] ++ advances 0 11 ++ [.refresh ["a"], .close ["a"]] ++
        advances 2 9 ++ advances 1 2)).map (fun t =>
      (decide (∀ op ∈ t.ops, op.stage = .done),
        decide (t.closed memberEnv ∧ "a" ∈ t.present))) = some (true, true) := by
    decide +kernel
  obtain ⟨t, hrun, ht⟩ := Option.map_eq_some_iff.mp hlog
  obtain ⟨hdone, hpresent⟩ := Prod.mk.inj ht
  obtain ⟨hclosed, ha⟩ := of_decide_eq_true hpresent
  have htrack : shouldTrackPresence memberEnv "a" false = true := by decide +kernel
  refine ⟨settled_memberState, t, hrun, of_decide_eq_true hdone, hclosed, ha, htrack, ?_⟩
  intro hagrees
  exact ((hagrees "a" htrack).mp ha).1 hclosed

end Runs

end MessageLoop.PresenceStore
