import MessageLoop.Lib.Toggle
import MessageLoop.Lib.Transition
import MessageLoop.Topics
import Mathlib.Data.Finset.Union

/-!
Live subscriptions of the Redis broker (`pkg/redisbroker/redis.go`, `pkg/redisbroker/pubsub.go`).

`Subscribe` and `Unsubscribe` compute, in one critical section, how the set of Redis names the
node needs has changed, and queue the changes one by one after leaving it. The consumer applies
queued changes on one connection that stays up; no command fails and the queue is never full.
-/

namespace MessageLoop.LiveSubs

open Topics List Toggle

def liveOpsBufferSize : Nat := 256

/-- `done` is the confirmation channel of an add, by its number. -/
structure LiveOp where
  add : Bool
  pattern : Bool
  channel : String
  done : Option Nat
  deriving DecidableEq, Repr

/-- A call that left its critical section: the changes it still has to queue and the confirmation
it waits for. -/
structure Call where
  ops : List LiveOp
  awaiting : Option Nat
  deriving DecidableEq, Repr

/-- The counters of `subscribed` and `wcCounts` are multisets of keys. `connected` holds the names
Redis has for the connection, `acks` its replies in order, `closed` the confirmation channels
that are closed. `computed` and `enqueued` log the changes in the order of the critical sections
and in the order of the queue. -/
structure State where
  subscribed : Multiset String
  wcCounts : Multiset String
  liveDesired : Finset String
  calls : List Call
  liveOps : List LiveOp
  connected : Finset String
  liveActive : Finset String
  pendingLiveOps : List (String × Option Nat)
  acks : List String
  closed : List Nat
  channels : Nat
  computed : List (String × Bool)
  enqueued : List (String × Bool)
  deriving DecidableEq

def LiveOp.change (op : LiveOp) : String × Bool :=
  (op.channel, op.add)

section
variable (pubSubPrefix : String)

def exactNames (ch : String) : List String :=
  match compileInterest ch with
  | .error _ => []
  | .ok ci => if ci.exact ≠ "" then [pubSubPrefix ++ ci.exact] else []

def wildcardNames (key : String) : List String :=
  match compileInterest key with
  | .error _ => []
  | .ok ci =>
    (if ci.pattern ≠ "" then [pubSubPrefix ++ ci.pattern] else []) ++
      if ci.alsoExact ≠ "" then [pubSubPrefix ++ ci.alsoExact] else []

def liveDesiredLocked (subscribed wcCounts : Multiset String) : Finset String :=
  (subscribed.toFinset.biUnion fun ch => (exactNames pubSubPrefix ch).toFinset) ∪
    wcCounts.toFinset.biUnion fun key => (wildcardNames pubSubPrefix key).toFinset

def State.start (subscribed wcCounts : Multiset String) : State where
  subscribed := subscribed
  wcCounts := wcCounts
  liveDesired := liveDesiredLocked pubSubPrefix subscribed wcCounts
  calls := []
  liveOps := []
  connected := liveDesiredLocked pubSubPrefix subscribed wcCounts
  liveActive := liveDesiredLocked pubSubPrefix subscribed wcCounts
  pendingLiveOps := []
  acks := []
  closed := []
  channels := 0
  computed := []
  enqueued := []

def liveOp (add : Bool) (name : String) : LiveOp :=
  ⟨add, isWildcard name, name, none⟩

/-- The new changes, in the orders in which the two map iterations happen to visit the names. -/
def liveDiffLocked (s : State) (adds removes : List String) : Option (State × List LiveOp) :=
  let desired := liveDesiredLocked pubSubPrefix s.subscribed s.wcCounts
  if adds.Nodup ∧ adds.toFinset = desired \ s.liveDesired ∧
      removes.Nodup ∧ removes.toFinset = s.liveDesired \ desired then
    some ({ s with liveDesired := desired },
      adds.map (liveOp true) ++ removes.map (liveOp false))
  else none

def State.spawn (s : State) (ops : List LiveOp) : State :=
  { s with
    calls := s.calls ++ [⟨ops, none⟩]
    computed := s.computed ++ ops.map LiveOp.change }

/-- The end of a critical section: only the first or the last holder of a key computes changes. -/
def unlock (s : State) (changed : Bool) (adds removes : List String) : Option State :=
  if changed then (liveDiffLocked pubSubPrefix s adds removes).map fun r => r.1.spawn r.2
  else some (s.spawn [])

def subscribe (s : State) (ch : String) (adds removes : List String) : Option State :=
  match compileInterest ch with
  | .error _ => some s
  | .ok _ =>
    if isWildcard ch then
      let wcCounts := ch ::ₘ s.wcCounts
      unlock pubSubPrefix { s with wcCounts := wcCounts } (wcCounts.count ch = 1) adds removes
    else
      let subscribed := ch ::ₘ s.subscribed
      unlock pubSubPrefix { s with subscribed := subscribed } (subscribed.count ch = 1)
        adds removes

def unsubscribe (s : State) (ch : String) (adds removes : List String) : Option State :=
  if isWildcard ch then
    let wcCounts := s.wcCounts.erase ch
    unlock pubSubPrefix { s with wcCounts := wcCounts }
      (0 < s.wcCounts.count ch ∧ wcCounts.count ch = 0) adds removes
  else
    let subscribed := s.subscribed.erase ch
    unlock pubSubPrefix { s with subscribed := subscribed }
      (0 < s.subscribed.count ch ∧ subscribed.count ch = 0) adds removes

end

def enqueueLiveOp (s : State) (k : Nat) : Option State :=
  match s.calls[k]? with
  | some ⟨op :: rest, none⟩ =>
    if s.liveOps.length < liveOpsBufferSize then
      let done := if op.add then some s.channels else none
      some { s with
        calls := s.calls.set k ⟨rest, done⟩
        liveOps := s.liveOps ++ [{ op with done := done }]
        channels := s.channels + 1
        enqueued := s.enqueued ++ [op.change] }
    else none
  | _ => none

/-- The call goes on once its add is confirmed, or after `liveOpAckTimeout`. -/
def proceed (s : State) (k : Nat) (timeout : Bool) : Option State :=
  match s.calls[k]? with
  | some ⟨ops, some done⟩ =>
    if timeout || s.closed.contains done then some { s with calls := s.calls.set k ⟨ops, none⟩ }
    else none
  | _ => none

def completeLiveOp (s : State) (done : Option Nat) : State :=
  { s with closed := done.toList ++ s.closed }

def applyLiveOp (s : State) (op : LiveOp) : State :=
  if op.add && decide (op.channel ∈ s.liveActive) then completeLiveOp s op.done
  else if op.add then
    { s with
      connected := insert op.channel s.connected
      acks := s.acks ++ [op.channel]
      liveActive := insert op.channel s.liveActive
      pendingLiveOps := s.pendingLiveOps ++ [(op.channel, op.done)] }
  else
    completeLiveOp
      { s with
        connected := s.connected.erase op.channel
        acks := s.acks ++ [op.channel]
        liveActive := s.liveActive.erase op.channel } op.done

def consume (s : State) : Option State :=
  match s.liveOps with
  | [] => none
  | op :: rest => some (applyLiveOp { s with liveOps := rest } op)

/-- A reply of Redis confirms every add that waits for its name, whatever command it answers. -/
def acknowledge (s : State) : Option State :=
  match s.acks with
  | [] => none
  | name :: rest =>
    some { s with
      acks := rest
      closed := (s.pendingLiveOps.filter (·.1 = name)).filterMap (·.2) ++ s.closed
      pendingLiveOps := s.pendingLiveOps.filter (·.1 ≠ name) }

inductive Action where
  | subscribe (ch : String) (adds removes : List String)
  | unsubscribe (ch : String) (adds removes : List String)
  | enqueue (k : Nat)
  | proceed (k : Nat) (timeout : Bool)
  | consume
  | acknowledge
  deriving DecidableEq, Repr

def step (pubSubPrefix : String) (s : State) : Action → Option State
  | .subscribe ch adds removes => subscribe pubSubPrefix s ch adds removes
  | .unsubscribe ch adds removes => unsubscribe pubSubPrefix s ch adds removes
  | .enqueue k => enqueueLiveOp s k
  | .proceed k timeout => proceed s k timeout
  | .consume => consume s
  | .acknowledge => acknowledge s

abbrev run (pubSubPrefix : String) : State → List Action → Option State :=
  Transition.run (step pubSubPrefix)

def Quiescent (s : State) : Prop :=
  (∀ c ∈ s.calls, c = ⟨[], none⟩) ∧ s.liveOps = []

instance (s : State) : Decidable (Quiescent s) :=
  inferInstanceAs (Decidable (_ ∧ _))

def State.unqueued (s : State) : List (String × Bool) :=
  s.calls.flatMap fun c => c.ops.map LiveOp.change

/-- The logs explain the sets they lead to: the computed changes the desired names, the queued
ones the names of the connection once the queue is drained. -/
structure Inv (pubSubPrefix : String) (initial : Finset String) (s : State) : Prop where
  desired : s.liveDesired = liveDesiredLocked pubSubPrefix s.subscribed s.wcCounts
  active : s.liveActive = s.connected
  computed : Toggle.apply initial s.computed = s.liveDesired
  enqueued : Toggle.apply initial s.enqueued =
    Toggle.apply s.connected (s.liveOps.map LiveOp.change)
  logged : s.computed.Perm (s.enqueued ++ s.unqueued)

variable {pubSubPrefix : String} {initial : Finset String} {s t : State}

theorem inv_start (subscribed wcCounts : Multiset String) :
    Inv pubSubPrefix (liveDesiredLocked pubSubPrefix subscribed wcCounts)
      (State.start pubSubPrefix subscribed wcCounts) where
  desired := rfl
  active := rfl
  computed := rfl
  enqueued := rfl
  logged := .refl _

theorem map_liveOp_change (add : Bool) (names : List String) :
    (names.map (liveOp add)).map LiveOp.change = names.map (·, add) := by
  rw [map_map]
  rfl

theorem unqueued_spawn (ops : List LiveOp) :
    (s.spawn ops).unqueued = s.unqueued ++ ops.map LiveOp.change := by
  simp [State.unqueued, State.spawn]

theorem apply_diff {old new : Finset String} {adds removes : List String}
    (hadds : adds.toFinset = new \ old) (hremoves : removes.toFinset = old \ new) :
    apply old (adds.map (·, true) ++ removes.map (·, false)) = new := by
  rw [apply_append, apply_insertions, apply_removals, hadds, hremoves]
  ext x
  simp only [Finset.mem_sdiff, Finset.mem_union]
  tauto

theorem toFinset_cons_of_counted {ch : String} {keys : Multiset String}
    (hcount : (ch ::ₘ keys).count ch ≠ 1) : (ch ::ₘ keys).toFinset = keys.toFinset := by
  have hmem : ch ∈ keys := by
    rw [Multiset.count_cons_self] at hcount
    exact Multiset.count_pos.mp (by omega)
  rw [Multiset.toFinset_cons, Finset.insert_eq_of_mem (Multiset.mem_toFinset.mpr hmem)]

theorem toFinset_erase_of_counted {ch : String} {keys : Multiset String}
    (hcount : ¬(0 < keys.count ch ∧ (keys.erase ch).count ch = 0)) :
    (keys.erase ch).toFinset = keys.toFinset := by
  ext x
  rw [Multiset.mem_toFinset, Multiset.mem_toFinset]
  by_cases hx : x = ch
  · subst hx
    rw [← Multiset.count_pos, ← Multiset.count_pos]
    rw [Multiset.count_erase_self] at hcount ⊢
    omega
  · exact Multiset.mem_erase_of_ne hx

theorem flatMap_set_perm {α β : Type} {f : α → List β} {l : List α} {k : Nat} {a b : α} {x : β}
    (hk : l[k]? = some a) (hf : f a = x :: f b) :
    (l.flatMap f).Perm (x :: (l.set k b).flatMap f) := by
  induction l generalizing k with
  | nil => simp at hk
  | cons c l ih =>
    cases k with
    | zero =>
      obtain rfl : c = a := by simpa using hk
      simp [hf]
    | succ k =>
      have hrest := (ih (by simpa using hk)).append_left (f c)
      simpa using hrest.trans perm_middle

theorem flatMap_set_of_eq {α β : Type} {f : α → List β} {l : List α} {k : Nat} {a b : α}
    (hk : l[k]? = some a) (hf : f a = f b) : (l.set k b).flatMap f = l.flatMap f := by
  induction l generalizing k with
  | nil => simp at hk
  | cons c l ih =>
    cases k with
    | zero =>
      obtain rfl : c = a := by simpa using hk
      simp [hf]
    | succ k => simpa using ih (by simpa using hk)

theorem connected_applyLiveOp (op : LiveOp) (hactive : s.liveActive = s.connected) :
    (applyLiveOp s op).connected = change s.connected op.change ∧
      (applyLiveOp s op).liveActive = (applyLiveOp s op).connected := by
  unfold applyLiveOp change LiveOp.change
  rw [hactive]
  cases op.add with
  | false => simp [completeLiveOp]
  | true =>
    by_cases hmem : op.channel ∈ s.connected
    · simp [completeLiveOp, hmem, hactive]
    · simp [hmem]

theorem applyLiveOp_keeps (op : LiveOp) :
    (applyLiveOp s op).subscribed = s.subscribed ∧ (applyLiveOp s op).wcCounts = s.wcCounts ∧
      (applyLiveOp s op).liveDesired = s.liveDesired ∧ (applyLiveOp s op).calls = s.calls ∧
      (applyLiveOp s op).liveOps = s.liveOps ∧ (applyLiveOp s op).computed = s.computed ∧
      (applyLiveOp s op).enqueued = s.enqueued := by
  unfold applyLiveOp
  split
  · exact ⟨rfl, rfl, rfl, rfl, rfl, rfl, rfl⟩
  · split <;> exact ⟨rfl, rfl, rfl, rfl, rfl, rfl, rfl⟩

section
variable {ch : String} {adds removes : List String} {k : Nat}
variable (hinv : Inv pubSubPrefix initial s)
include hinv

/-- A call that changed the interest keeps the invariant, if it computes the diff whenever the
desired names have changed. -/
theorem inv_unlock (subscribed wcCounts : Multiset String)
    {changed : Bool} {adds removes : List String} (hkept : changed = false →
      liveDesiredLocked pubSubPrefix subscribed wcCounts = s.liveDesired)
    (h : unlock pubSubPrefix { s with subscribed := subscribed, wcCounts := wcCounts } changed
      adds removes = some t) : Inv pubSubPrefix initial t := by
  have hlogged (ops : List LiveOp) :
      (s.computed ++ ops.map LiveOp.change).Perm
        (s.enqueued ++ (s.unqueued ++ ops.map LiveOp.change)) := by
    rw [← append_assoc]
    exact hinv.logged.append_right _
  cases changed with
  | false =>
    cases h
    exact
      { desired := (hkept rfl).symm
        active := hinv.active
        computed := by simpa [State.spawn] using hinv.computed
        enqueued := hinv.enqueued
        logged := by
          rw [unqueued_spawn]
          exact hlogged [] }
  | true =>
    simp only [unlock, if_true, liveDiffLocked] at h
    split at h
    case isFalse => cases h
    case isTrue hdiff =>
      obtain ⟨-, hadds, -, hremoves⟩ := hdiff
      cases h
      exact
        { desired := rfl
          active := hinv.active
          computed := by
            simp only [State.spawn, map_append, map_liveOp_change]
            rw [apply_append, hinv.computed]
            exact apply_diff hadds hremoves
          enqueued := hinv.enqueued
          logged := by
            rw [unqueued_spawn]
            exact hlogged _ }

theorem inv_subscribe
    (h : subscribe pubSubPrefix s ch adds removes = some t) : Inv pubSubPrefix initial t := by
  unfold subscribe at h
  split at h
  case h_1 =>
    cases h
    exact hinv
  case h_2 =>
    split at h
    · refine inv_unlock hinv s.subscribed (ch ::ₘ s.wcCounts) (fun hchanged => ?_) h
      rw [hinv.desired, liveDesiredLocked,
        toFinset_cons_of_counted (of_decide_eq_false hchanged)]
      rfl
    · refine inv_unlock hinv (ch ::ₘ s.subscribed) s.wcCounts (fun hchanged => ?_) h
      rw [hinv.desired, liveDesiredLocked,
        toFinset_cons_of_counted (of_decide_eq_false hchanged)]
      rfl

theorem inv_unsubscribe
    (h : unsubscribe pubSubPrefix s ch adds removes = some t) : Inv pubSubPrefix initial t := by
  unfold unsubscribe at h
  split at h
  · refine inv_unlock hinv s.subscribed (s.wcCounts.erase ch) (fun hchanged => ?_) h
    rw [hinv.desired, liveDesiredLocked,
      toFinset_erase_of_counted (of_decide_eq_false hchanged)]
    rfl
  · refine inv_unlock hinv (s.subscribed.erase ch) s.wcCounts (fun hchanged => ?_) h
    rw [hinv.desired, liveDesiredLocked,
      toFinset_erase_of_counted (of_decide_eq_false hchanged)]
    rfl

theorem inv_enqueueLiveOp {k : Nat}
    (h : enqueueLiveOp s k = some t) : Inv pubSubPrefix initial t := by
  unfold enqueueLiveOp at h
  split at h
  case h_2 => cases h
  case h_1 op rest hcall =>
    split at h
    case isFalse => cases h
    case isTrue =>
      cases h
      exact
        { desired := hinv.desired
          active := hinv.active
          computed := hinv.computed
          enqueued := by
            simp only [map_append]
            rw [apply_append, apply_append, hinv.enqueued]
            rfl
          logged := by
            have hmoved := flatMap_set_perm
              (f := fun c : Call => c.ops.map LiveOp.change)
              (b := ⟨rest, if op.add then some s.channels else none⟩) hcall (map_cons ..)
            simp only [append_assoc]
            exact hinv.logged.trans (hmoved.append_left s.enqueued) }

theorem inv_proceed {timeout : Bool}
    (h : proceed s k timeout = some t) : Inv pubSubPrefix initial t := by
  unfold proceed at h
  split at h
  case h_2 => cases h
  case h_1 ops done hcall =>
    split at h
    case isFalse => cases h
    case isTrue =>
      cases h
      have hsame : (s.calls.set k ⟨ops, none⟩).flatMap (fun c => c.ops.map LiveOp.change) =
          s.unqueued := flatMap_set_of_eq hcall rfl
      exact
        { hinv with
          logged := by
            rw [State.unqueued, hsame]
            exact hinv.logged }

theorem inv_consume (h : consume s = some t) : Inv pubSubPrefix initial t := by
  unfold consume at h
  split at h
  case h_1 => cases h
  case h_2 op rest hops =>
    cases h
    have hkeeps := applyLiveOp_keeps (s := { s with liveOps := rest }) op
    obtain ⟨hsub, hwc, hdesired, hcalls, hqueue, hcomputed, henqueued⟩ := hkeeps
    obtain ⟨hconn, hactive⟩ :=
      connected_applyLiveOp (s := { s with liveOps := rest }) op hinv.active
    exact
      { desired := by rw [hdesired, hsub, hwc]; exact hinv.desired
        active := hactive
        computed := by rw [hcomputed, hdesired]; exact hinv.computed
        enqueued := by
          rw [henqueued, hqueue, hconn, hinv.enqueued, hops]
          rfl
        logged := by
          rw [State.unqueued, hcomputed, henqueued, hcalls]
          exact hinv.logged }

theorem inv_acknowledge (h : acknowledge s = some t) : Inv pubSubPrefix initial t := by
  unfold acknowledge at h
  split at h
  case h_1 => cases h
  case h_2 =>
    cases h
    exact { hinv with }

theorem inv_step {a : Action}
    (h : step pubSubPrefix s a = some t) : Inv pubSubPrefix initial t := by
  cases a with
  | subscribe => exact inv_subscribe hinv h
  | unsubscribe => exact inv_unsubscribe hinv h
  | enqueue => exact inv_enqueueLiveOp hinv h
  | proceed => exact inv_proceed hinv h
  | consume => exact inv_consume hinv h
  | acknowledge => exact inv_acknowledge hinv h

end

theorem unqueued_of_quiescent (hq : Quiescent s) : s.unqueued = [] := by
  rw [State.unqueued, flatMap_eq_nil_iff]
  intro c hc
  rw [hq.1 c hc]
  rfl

/-- Once every call has returned and the queue is empty, the connection has exactly the desired
names if and only if, for each name, the change queued last is the one computed last. -/
theorem live_names_converge_iff {subscribed wcCounts : Multiset String} {as : List Action}
    (hrun : run pubSubPrefix (State.start pubSubPrefix subscribed wcCounts) as = some s)
    (hq : Quiescent s) :
    s.connected = liveDesiredLocked pubSubPrefix s.subscribed s.wcCounts ↔
      ∀ name, Toggle.last s.enqueued name = Toggle.last s.computed name := by
  have hinv := Transition.invariant (inv_start subscribed wcCounts)
    (fun _ _ _ hinv h => inv_step hinv h) hrun
  have hperm : s.enqueued.Perm s.computed := by
    have hlogged := hinv.logged
    rw [unqueued_of_quiescent hq, append_nil] at hlogged
    exact hlogged.symm
  have hconn := hinv.enqueued
  rw [hq.2, map_nil, apply_nil] at hconn
  rw [← hinv.desired, ← hinv.computed, ← hconn]
  exact apply_eq_iff hperm

def inOrder : List Action :=
  [.unsubscribe "room" [] ["ml2:pubsub:room"], .subscribe "room" ["ml2:pubsub:room"] [],
    .enqueue 0, .enqueue 1, .consume, .consume, .acknowledge, .acknowledge, .proceed 1 false]

def overtaken : List Action :=
  [.unsubscribe "room" [] ["ml2:pubsub:room"], .subscribe "room" ["ml2:pubsub:room"] [],
    .enqueue 1, .consume, .proceed 1 false, .enqueue 0, .consume, .acknowledge]

theorem live_names_converge_inOrder :
    ∃ s, run "ml2:pubsub:" (State.start "ml2:pubsub:" {"room"} 0) inOrder = some s ∧
      Quiescent s ∧ s.connected = liveDesiredLocked "ml2:pubsub:" s.subscribed s.wcCounts := by
  obtain ⟨s, hrun, hq, hlog⟩ :
      ∃ s, run "ml2:pubsub:" (State.start "ml2:pubsub:" {"room"} 0) inOrder = some s ∧
        Quiescent s ∧ s.enqueued = s.computed :=
    ⟨_, rfl, by decide +kernel, by decide +kernel⟩
  exact ⟨s, hrun, hq, (live_names_converge_iff hrun hq).mpr fun name => by rw [hlog]⟩

/-- The add finds its name active and is skipped, and the late removal then takes the name off a
connection that still needs it. -/
theorem live_names_lost :
    ∃ s, run "ml2:pubsub:" (State.start "ml2:pubsub:" {"room"} 0) overtaken = some s ∧
      Quiescent s ∧ liveDesiredLocked "ml2:pubsub:" s.subscribed s.wcCounts = {"ml2:pubsub:room"} ∧
      s.connected = ∅ :=
  ⟨_, rfl, by decide +kernel, by decide +kernel, by decide +kernel⟩

end MessageLoop.LiveSubs
