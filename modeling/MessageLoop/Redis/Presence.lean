import MessageLoop.Lib.Locks
import MessageLoop.Lib.Transition
import Mathlib.Data.List.Basic

/-!
The Redis presence store of one channel (`pkg/redisbroker/presence_redis.go`).

A membership is a key with a TTL, and a set indexes the members. `Add` is a pipeline of three
commands that is no transaction, `Remove` is one script, and `Get` reads the index, then the member
keys, then prunes the members whose key it found missing and reports each of them to the
synthetic-leave hook. Commands of different calls interleave, and any command may fail.
-/

namespace MessageLoop.Redis.Presence

open List Option

structure PresenceInfo where
  clientID : String
  userID : String
  connectedAt : Int
  sessionID : String
  connectClientID : String
  deriving DecidableEq, Repr

/-- In seconds; the members and the index have the same TTL. -/
def presenceTTL : Nat := 60

structure Member where
  info : PresenceInfo
  expireAt : Nat
  deriving DecidableEq, Repr

/-- The keys of the channel. An empty index is a missing key, which has no expiry. -/
structure Store where
  clock : Nat
  members : String → Option Member
  index : List String
  indexExpireAt : Option Nat

open Store

namespace Store

def empty : Store := ⟨0, fun _ => none, [], none⟩

/-- `SET member data EX ttl`. -/
def set (s : Store) (info : PresenceInfo) : Store :=
  { s with
    members := Function.update s.members info.clientID (some ⟨info, s.clock + presenceTTL⟩) }

def sadd (s : Store) (clientID : String) : Store :=
  { s with index := s.index.insert clientID }

/-- `EXPIRE index ttl`, which does nothing to a missing index. -/
def expire (s : Store) : Store :=
  { s with indexExpireAt := if s.index.isEmpty then none else some (s.clock + presenceTTL) }

def del (s : Store) (clientID : String) : Store :=
  { s with members := Function.update s.members clientID none }

/-- `SREM index clientIDs`; a set that becomes empty is deleted. -/
def srem (s : Store) (clientIDs : List String) : Store :=
  let rest := s.index.filter fun m => !clientIDs.contains m
  { s with index := rest, indexExpireAt := if rest.isEmpty then none else s.indexExpireAt }

def delIndex (s : Store) : Store :=
  { s with index := [], indexExpireAt := none }

def presenceRemoveScript (s : Store) (clientID : String) : Store :=
  let t := (s.del clientID).srem [clientID]
  if t.index.length = 0 then t.delIndex else t

def indexExpires (s : Store) (d : Nat) : Bool :=
  match s.indexExpireAt with
  | some expireAt => expireAt ≤ s.clock + d
  | none => false

def tick (s : Store) (d : Nat) : Store :=
  { clock := s.clock + d
    members := fun m => (s.members m).filter fun e => s.clock + d < e.expireAt
    index := if s.indexExpires d then [] else s.index
    indexExpireAt := if s.indexExpires d then none else s.indexExpireAt }

end Store

inductive Return where
  | nil
  | error
  | members (result : List PresenceInfo)
  deriving DecidableEq, Repr

/-- Where a call stands, before the command of that name. `err` says that an earlier command of the
pipeline has failed. -/
inductive Pc where
  | set (info : PresenceInfo)
  | sadd (info : PresenceInfo) (err : Bool)
  | expire (info : PresenceInfo) (err : Bool)
  | remove (clientID : String)
  | smembers
  | get (todo : List String) (result : List PresenceInfo) (stale : List String)
  | srem (result : List PresenceInfo) (stale : List String)
  | hooks (result : List PresenceInfo) (todo : List String)
  | returned (r : Return)
  deriving DecidableEq, Repr

structure Env where
  ok : Bool
  next : Nat
  deriving DecidableEq, Repr

/-- One step of a call. The member keys are read, and the hook is called, in any order. -/
def advance (s : Store) (pc : Pc) (env : Env) : Option (Store × Pc) :=
  match pc with
  | .set info => some (if env.ok then s.set info else s, .sadd info (!env.ok))
  | .sadd info err =>
    some (if env.ok then s.sadd info.clientID else s, .expire info (err || !env.ok))
  | .expire _ err =>
    some (if env.ok then s.expire else s,
      .returned (if err || !env.ok then .error else .nil))
  | .remove clientID =>
    if env.ok then some (s.presenceRemoveScript clientID, .returned .nil)
    else some (s, .returned .error)
  | .smembers =>
    if env.ok then some (s, .get s.index [] []) else some (s, .returned .error)
  | .get [] result [] => some (s, .returned (.members result))
  | .get [] result stale => some (s, .srem result stale)
  | .get todo result stale =>
    todo[env.next]?.map fun m =>
      if env.ok then
        match s.members m with
        | some e => (s, .get (todo.eraseIdx env.next) (result ++ [e.info]) stale)
        | none => (s, .get (todo.eraseIdx env.next) result (stale ++ [m]))
      else (s, .returned .error)
  | .srem result stale => some (if env.ok then s.srem stale else s, .hooks result stale)
  | .hooks result [] => some (s, .returned (.members result))
  | .hooks result todo =>
    todo[env.next]?.map fun _ => (s, .hooks result (todo.eraseIdx env.next))
  | .returned _ => none

structure State where
  store : Store
  lastAdd : String → Option Nat
  calls : List Pc

inductive Action where
  | add (info : PresenceInfo)
  | remove (clientID : String)
  | get
  | call (k : Nat) (env : Env)
  | tick (d : Nat)
  deriving DecidableEq, Repr

namespace State

def init : State := ⟨.empty, fun _ => none, []⟩

def start (s : State) (pc : Pc) : State :=
  { s with calls := s.calls ++ [pc] }

def noteAdd (s : State) (k : Nat) (pc : Pc) (env : Env) : String → Option Nat :=
  match pc with
  | .set info => if env.ok then Function.update s.lastAdd info.clientID (some k) else s.lastAdd
  | _ => s.lastAdd

end State

def step (s : State) : Action → Option State
  | .add info => some (s.start (.set info))
  | .remove clientID => some (s.start (.remove clientID))
  | .get => some (s.start .smembers)
  | .call k env =>
    s.calls[k]?.bind fun pc =>
      (advance s.store pc env).map fun r => ⟨r.1, s.noteAdd k pc env, s.calls.set k r.2⟩
  | .tick d => some { s with store := s.store.tick d }

abbrev run : State → List Action → Option State :=
  Transition.run step

/-- The members that a `Get` has found missing and not yet reported. -/
def Pc.stale : Pc → List String
  | .get _ _ stale | .srem _ stale => stale
  | .hooks _ todo => todo
  | _ => []

def Pc.Unindexed (m : String) : Pc → Prop
  | .sadd info _ => info.clientID = m
  | _ => False

def Pc.Untimed : Pc → Bool
  | .expire .. => true
  | _ => false

/-- What is asked of the next command of a call: no member is put into the index while a `Get` that
has found its key missing has yet to prune or to report it, and the last two commands of an `Add`
do not fail. -/
def Pc.Undisturbed (s : State) (env : Env) : Pc → Prop
  | .sadd info _ => env.ok = true ∧ ∀ pc ∈ s.calls, info.clientID ∉ pc.stale
  | .expire .. => env.ok = true
  | _ => True

/-- Besides, the index does not expire between the last two commands of an `Add`. -/
def Undisturbed (s : State) : Action → Prop
  | .call k env => ∀ pc ∈ s.calls[k]?, pc.Undisturbed s env
  | .tick d => s.store.indexExpires d → ∀ pc ∈ s.calls, pc.Untimed = false
  | _ => True

instance (s : State) (env : Env) : (pc : Pc) → Decidable (pc.Undisturbed s env)
  | .sadd .. => inferInstanceAs (Decidable (_ ∧ ∀ pc ∈ s.calls, _ ∉ pc.stale))
  | .expire .. => inferInstanceAs (Decidable (env.ok = true))
  | .set _ | .remove _ | .smembers | .get .. | .srem .. | .hooks .. | .returned _ => isTrue trivial

instance (s : State) : (a : Action) → Decidable (Undisturbed s a)
  | .call .. => inferInstanceAs (Decidable (∀ pc ∈ _, Pc.Undisturbed s _ pc))
  | .tick d => inferInstanceAs (Decidable (s.store.indexExpires d → ∀ pc ∈ s.calls, _))
  | .add _ | .remove _ | .get => isTrue trivial

/-- The member's latest `Add` is complete, and its key has neither expired nor been removed. -/
def Present (s : State) (m : String) : Prop :=
  (s.store.members m).isSome ∧
    ∃ i r, s.lastAdd m = some i ∧ s.calls[i]? = some (.returned r)

section Inversion

/-- What one step of a call does to the store. The last constructor is for the steps of `Remove` and
`Get` that change nothing. -/
inductive Advances (s : Store) : Pc → Bool → Store → Pc → Prop
  | set (info : PresenceInfo) : Advances s (.set info) true (s.set info) (.sadd info false)
  | sadd (info : PresenceInfo) (err : Bool) :
      Advances s (.sadd info err) true (s.sadd info.clientID) (.expire info err)
  | expire (info : PresenceInfo) (err : Bool) (r : Return) :
      Advances s (.expire info err) true s.expire (.returned r)
  | remove (clientID : String) (r : Return) :
      Advances s (.remove clientID) true (s.presenceRemoveScript clientID) (.returned r)
  | srem (result : List PresenceInfo) (stale : List String) :
      Advances s (.srem result stale) true (s.srem stale) (.hooks result stale)
  | setFails (info : PresenceInfo) : Advances s (.set info) false s (.sadd info true)
  | saddFails (info : PresenceInfo) (err : Bool) (pc : Pc) : Advances s (.sadd info err) false s pc
  | expireFails (info : PresenceInfo) (err : Bool) (pc : Pc) :
      Advances s (.expire info err) false s pc
  | reads {pc pc' : Pc} {ok : Bool} (hset : ∀ info, pc ≠ .set info)
      (hindexed : ∀ m, ¬ pc.Unindexed m) (htimed : pc.Untimed = false)
      (hstale : ∀ m ∈ pc'.stale, m ∈ pc.stale ∨ s.members m = none) : Advances s pc ok s pc'

variable {s t : Store} {pc pc' : Pc} {env : Env}

theorem advances_get {todo stale : List String} {result : List PresenceInfo}
    (h : advance s (.get todo result stale) env = some (t, pc)) :
    Advances s (.get todo result stale) env.ok t pc := by
  have reads : ∀ pc : Pc, (∀ m ∈ pc.stale, m ∈ stale ∨ s.members m = none) →
      Advances s (.get todo result stale) env.ok s pc :=
    fun pc hstale => .reads nofun (fun _ => id) rfl hstale
  cases todo with
  | nil =>
    cases stale with
    | nil =>
      cases h
      exact reads _ nofun
    | cons m stale =>
      cases h
      exact reads _ (fun _ hm => .inl hm)
  | cons m todo =>
    obtain ⟨x, -, hx⟩ := map_eq_some_iff.mp h
    split_ifs at hx with hok
    · cases hread : s.members x with
      | some e =>
        rw [hread] at hx
        cases hx
        exact reads _ (fun _ hm => .inl hm)
      | none =>
        rw [hread] at hx
        cases hx
        refine reads _ fun y hy => ?_
        rcases mem_append.mp hy with hy | hy
        · exact .inl hy
        · exact .inr (by rw [mem_singleton.mp hy]; exact hread)
    · cases hx
      exact reads _ nofun

theorem advances_of_advance (h : advance s pc env = some (t, pc')) :
    Advances s pc env.ok t pc' := by
  obtain ⟨ok, next⟩ := env
  cases pc with
  | set info =>
    cases ok <;> cases h
    · exact .setFails info
    · exact .set info
  | sadd info err =>
    cases ok <;> cases h
    · exact .saddFails info err _
    · simpa using Advances.sadd (s := s) info err
  | expire info err =>
    cases ok <;> cases h
    · exact .expireFails info err _
    · exact .expire info err _
  | remove clientID =>
    cases ok <;> cases h
    · exact .reads nofun (fun _ => id) rfl nofun
    · exact .remove clientID _
  | smembers =>
    cases ok <;> cases h <;>
      exact .reads nofun (fun _ => id) rfl nofun
  | get todo result stale =>
    exact advances_get h
  | srem result stale =>
    cases ok <;> cases h
    · exact .reads nofun (fun _ => id) rfl (fun _ hm => .inl hm)
    · exact .srem result stale
  | hooks result todo =>
    cases todo with
    | nil =>
      cases h
      exact .reads nofun (fun _ => id) rfl nofun
    | cons m todo =>
      obtain ⟨x, -, hx⟩ := map_eq_some_iff.mp h
      cases hx
      exact .reads nofun (fun _ => id) rfl (fun _ hm => .inl (mem_of_mem_eraseIdx hm))
  | returned r => cases h

end Inversion

variable {s : State} {t : Store} {k : Nat} {pc pc' : Pc} {env : Env} {m : String}
variable {info : PresenceInfo}

section Visibility

structure Visible (s : State) : Prop where
  bounded : ∀ m e, s.store.members m = some e → e.expireAt ≤ s.store.clock + presenceTTL
  indexed : ∀ m e, s.store.members m = some e →
    m ∈ s.store.index ∨ ∃ pc ∈ s.calls, pc.Unindexed m
  outlives : ∀ m e x, s.store.members m = some e → m ∈ s.store.index →
    s.store.indexExpireAt = some x →
    e.expireAt ≤ x ∨ ∃ pc ∈ s.calls, pc.Unindexed m ∨ pc.Untimed
  readded : ∀ pc ∈ s.calls, ∀ m ∈ pc.stale, ∀ e, s.store.members m = some e →
    ∃ i pc', s.lastAdd m = some i ∧ s.calls[i]? = some pc' ∧ pc'.Unindexed m

section
variable (h : Visible s)
include h

theorem Visible.readded_set (hk : s.calls[k]? = some pc)
    (hfree : ∀ m, pc.Unindexed m → ∀ c ∈ s.calls, m ∉ c.stale) {c : Pc} (hc : c ∈ s.calls)
    (hm : m ∈ c.stale) {e : Member} (he : s.store.members m = some e) :
    ∃ i d, s.lastAdd m = some i ∧ (s.calls.set k pc')[i]? = some d ∧ d.Unindexed m := by
  obtain ⟨i, d, hi, hd, hun⟩ := h.readded c hc m hm e he
  have hik : k ≠ i := by
    rintro rfl
    cases hk.symm.trans hd
    exact hfree m hun c hc hm
  exact ⟨i, d, hi, by rw [getElem?_set_ne hik]; exact hd, hun⟩

theorem Visible.shrink (hk : s.calls[k]? = some pc) (hclock : t.clock = s.store.clock)
    (hmembers : ∀ m e, t.members m = some e → s.store.members m = some e)
    (hindex : ∀ m e, t.members m = some e → m ∈ s.store.index → m ∈ t.index ∨ m ∈ pc.stale)
    (hexpire : ∀ m x, m ∈ t.index → t.indexExpireAt = some x →
      m ∈ s.store.index ∧ s.store.indexExpireAt = some x) (hindexed : ∀ m, ¬ pc.Unindexed m)
    (htimed : pc.Untimed = false)
    (hstale : ∀ m ∈ pc'.stale, m ∈ pc.stale ∨ s.store.members m = none) :
    Visible ⟨t, s.lastAdd, s.calls.set k pc'⟩ := by
  have hkeep : ∀ m, (∃ c ∈ s.calls, c.Unindexed m) → ∃ c ∈ s.calls.set k pc', c.Unindexed m :=
    fun m => Locks.exists_mem_set hk fun hm => absurd hm (hindexed m)
  have hreadded : ∀ c ∈ s.calls, ∀ m ∈ c.stale, ∀ e, t.members m = some e →
      ∃ i d, s.lastAdd m = some i ∧ (s.calls.set k pc')[i]? = some d ∧ d.Unindexed m := by
    intro c hc m hm e he
    exact h.readded_set hk (fun m hun => absurd hun (hindexed m)) hc hm (hmembers m e he)
  refine ⟨?_, ?_, ?_, ?_⟩
  · intro m e he
    rw [hclock]
    exact h.bounded m e (hmembers m e he)
  · intro m e he
    rcases h.indexed m e (hmembers m e he) with hm | hadding
    · rcases hindex m e he hm with hm | hm
      · exact .inl hm
      · obtain ⟨i, d, -, hd, hun⟩ := hreadded pc (mem_of_getElem? hk) m hm e he
        exact .inr ⟨d, mem_of_getElem? hd, hun⟩
    · exact .inr (hkeep m hadding)
  · intro m e x he hm hx
    obtain ⟨hm, hx⟩ := hexpire m x hm hx
    refine (h.outlives m e x (hmembers m e he) hm hx).imp id ?_
    refine Locks.exists_mem_set hk fun hadding => ?_
    rcases hadding with hun | hut
    · exact absurd hun (hindexed m)
    · simp [htimed] at hut
  · intro c hc m hm e he
    rcases mem_or_eq_of_mem_set hc with hc | rfl
    · exact hreadded c hc m hm e he
    · rcases hstale m hm with hm | hnone
      · exact hreadded pc (mem_of_getElem? hk) m hm e he
      · rw [hmembers m e he] at hnone
        cases hnone

theorem Visible.set (hk : s.calls[k]? = some (.set info)) :
    Visible ⟨s.store.set info, Function.update s.lastAdd info.clientID (some k),
      s.calls.set k (.sadd info false)⟩ := by
  have hset : (s.calls.set k (.sadd info false))[k]? = some (.sadd info false) := by
    rw [List.getElem?_set_self (List.getElem?_eq_some_iff.mp hk).1]
  have hadding : ∃ c ∈ s.calls.set k (.sadd info false), c.Unindexed info.clientID :=
    ⟨_, mem_of_getElem? hset, rfl⟩
  have hother : ∀ m e, m ≠ info.clientID → (s.store.set info).members m = some e →
      s.store.members m = some e := by
    intro m e hm he
    simpa [Store.set, hm] using he
  refine ⟨?_, ?_, ?_, ?_⟩
  · intro m e he
    by_cases hm : m = info.clientID
    · subst hm
      obtain rfl : ⟨info, s.store.clock + presenceTTL⟩ = e := by simpa [Store.set] using he
      exact Nat.le_refl _
    · exact h.bounded m e (hother m e hm he)
  · intro m e he
    by_cases hm : m = info.clientID
    · subst hm
      exact .inr hadding
    · exact (h.indexed m e (hother m e hm he)).imp id (Locks.exists_mem_set hk False.elim)
  · intro m e x he hindex hx
    by_cases hm : m = info.clientID
    · subst hm
      obtain ⟨c, hc, hun⟩ := hadding
      exact .inr ⟨c, hc, .inl hun⟩
    · refine (h.outlives m e x (hother m e hm he) hindex hx).imp id (Locks.exists_mem_set hk ?_)
      exact fun hold => hold.elim False.elim nofun
  · intro c hc m hm e he
    by_cases hclient : m = info.clientID
    · subst hclient
      exact ⟨k, _, by simp, hset, rfl⟩
    · rcases mem_or_eq_of_mem_set hc with hc | rfl
      · obtain ⟨i, d, hi, hd⟩ := h.readded_set hk (fun _ => False.elim) hc hm (hother m e hclient he)
        exact ⟨i, d, by simpa [hclient] using hi, hd⟩
      · cases hm

theorem Visible.sadd {err : Bool} (hk : s.calls[k]? = some (.sadd info err))
    (hfree : ∀ c ∈ s.calls, info.clientID ∉ c.stale) :
    Visible ⟨s.store.sadd info.clientID, s.lastAdd, s.calls.set k (.expire info err)⟩ := by
  have hset : (.expire info err : Pc) ∈ s.calls.set k (.expire info err) :=
    Locks.mem_set_self hk
  refine ⟨h.bounded, ?_, ?_, ?_⟩
  · intro m e he
    by_cases hm : m = info.clientID
    · exact .inl (mem_insert_iff.mpr (.inl hm))
    · refine (h.indexed m e he).imp (fun hold => mem_insert_iff.mpr (.inr hold)) ?_
      exact Locks.exists_mem_set hk fun hun => absurd hun.symm hm
  · intro m e x he _ _
    exact .inr ⟨_, hset, .inr rfl⟩
  · intro c hc m hm e he
    rcases mem_or_eq_of_mem_set hc with hc | rfl
    · refine h.readded_set hk ?_ hc hm he
      rintro _ rfl
      exact hfree
    · cases hm

theorem Visible.expire {err : Bool} {r : Return} (hk : s.calls[k]? = some (.expire info err)) :
    Visible ⟨s.store.expire, s.lastAdd, s.calls.set k (.returned r)⟩ := by
  refine ⟨h.bounded, ?_, ?_, ?_⟩
  · intro m e he
    exact (h.indexed m e he).imp id (Locks.exists_mem_set hk False.elim)
  · intro m e x he hm hx
    have hne : s.store.index.isEmpty = false := by
      rw [isEmpty_eq_false_iff]
      exact ne_nil_of_mem hm
    obtain rfl : s.store.clock + presenceTTL = x := by simpa [Store.expire, hne] using hx
    exact .inl (h.bounded m e he)
  · intro c hc m hm e he
    rcases mem_or_eq_of_mem_set hc with hc | rfl
    · exact h.readded_set hk (fun _ => False.elim) hc hm he
    · cases hm

theorem Visible.start (hstale : pc.stale = []) : Visible (s.start pc) := by
  refine ⟨h.bounded, ?_, ?_, ?_⟩
  · intro m e he
    refine (h.indexed m e he).imp id ?_
    exact fun ⟨c, hc, hun⟩ => ⟨c, mem_append_left _ hc, hun⟩
  · intro m e x he hm hx
    refine (h.outlives m e x he hm hx).imp id ?_
    exact fun ⟨c, hc, hold⟩ => ⟨c, mem_append_left _ hc, hold⟩
  · intro c hc m hm e he
    rcases mem_append.mp hc with hc | hc
    · obtain ⟨i, d, hi, hd, hun⟩ := h.readded c hc m hm e he
      exact ⟨i, d, hi, by
        rw [State.start, List.getElem?_append_left (List.getElem?_eq_some_iff.mp hd).1]
        exact hd, hun⟩
    · rw [mem_singleton.mp hc, hstale] at hm
      cases hm

theorem Visible.tick {d : Nat}
    (htimed : s.store.indexExpires d → ∀ c ∈ s.calls, c.Untimed = false) :
    Visible { s with store := s.store.tick d } := by
  have hmembers : ∀ m e, (s.store.tick d).members m = some e →
      s.store.members m = some e ∧ s.store.clock + d < e.expireAt := by
    intro m e he
    simpa [Store.tick, filter_eq_some_iff] using he
  refine ⟨?_, ?_, ?_, ?_⟩
  · intro m e he
    have hle := h.bounded m e (hmembers m e he).1
    show e.expireAt ≤ s.store.clock + d + presenceTTL
    omega
  · intro m e he
    obtain ⟨hold, hlive⟩ := hmembers m e he
    rcases h.indexed m e hold with hm | hadding
    · cases hexp : s.store.indexExpires d with
      | false => exact .inl (by simpa [Store.tick, hexp] using hm)
      | true =>
        obtain ⟨x, hx, hle⟩ : ∃ x, s.store.indexExpireAt = some x ∧ x ≤ s.store.clock + d := by
          unfold indexExpires at hexp
          split at hexp
          · next x hx => exact ⟨x, hx, by simpa using hexp⟩
          · cases hexp
        rcases h.outlives m e x hold hm hx with hlate | ⟨c, hc, hun | hut⟩
        · omega
        · exact .inr ⟨c, hc, hun⟩
        · rw [htimed hexp c hc] at hut
          cases hut
    · exact .inr hadding
  · intro m e x he hm hx
    cases hexp : s.store.indexExpires d with
    | true => simp [Store.tick, hexp] at hm
    | false =>
      refine h.outlives m e x (hmembers m e he).1 ?_ ?_
      · simpa [Store.tick, hexp] using hm
      · simpa [Store.tick, hexp] using hx
  · intro c hc m hm e he
    exact h.readded c hc m hm e (hmembers m e he).1

end

theorem visible_init : Visible .init where
  bounded := nofun
  indexed := nofun
  outlives := nofun
  readded := nofun

theorem presenceRemoveScript_eq (t : Store) (clientID : String) :
    t.presenceRemoveScript clientID = (t.del clientID).srem [clientID] := by
  unfold presenceRemoveScript
  simp only
  split_ifs with hempty
  · have hrest := length_eq_zero_iff.mp hempty
    simp only [srem] at hrest
    simp only [srem, delIndex, hrest, isEmpty_nil, if_true]
  · rfl

theorem mem_srem {clientIDs : List String} :
    m ∈ (t.srem clientIDs).index ↔ m ∈ t.index ∧ m ∉ clientIDs := by
  simp [srem]

theorem indexExpireAt_srem {clientIDs : List String} {x : Nat} (hm : m ∈ (t.srem clientIDs).index)
    (hx : (t.srem clientIDs).indexExpireAt = some x) :
    t.indexExpireAt = some x := by
  have hne : (t.srem clientIDs).index.isEmpty = false := by
    rw [isEmpty_eq_false_iff]
    exact ne_nil_of_mem hm
  simp only [srem] at hx hne
  rwa [hne] at hx

theorem noteAdd_of_ne (h : ∀ info, pc ≠ .set info) : s.noteAdd k pc env = s.lastAdd := by
  cases pc with
  | set info => exact absurd rfl (h info)
  | _ => rfl

theorem Visible.call (h : Visible s) (hk : s.calls[k]? = some pc)
    (hok : Undisturbed s (.call k env)) (hadvances : Advances s.store pc env.ok t pc') :
    Visible ⟨t, s.noteAdd k pc env, s.calls.set k pc'⟩ := by
  obtain ⟨ok, next⟩ := env
  replace hok : pc.Undisturbed s ⟨ok, next⟩ := hok pc hk
  cases hadvances with
  | set info => exact h.set hk
  | sadd info err => exact h.sadd hk hok.2
  | expire info err r => exact h.expire hk
  | remove clientID r =>
    rw [presenceRemoveScript_eq]
    have hdel : ∀ m e, (s.store.del clientID).members m = some e →
        m ≠ clientID ∧ s.store.members m = some e := by
      intro m e he
      by_cases hm : m = clientID
      · simp [del, hm] at he
      · exact ⟨hm, by simpa [del, hm] using he⟩
    refine h.shrink hk rfl (fun m e he => (hdel m e he).2) ?_ ?_ (fun _ => id) rfl
      nofun
    · intro m e he hm
      exact .inl (mem_srem.mpr ⟨hm, by simpa using (hdel m e he).1⟩)
    · intro m x hm hx
      exact ⟨(mem_srem.mp hm).1, indexExpireAt_srem hm hx⟩
  | srem result stale =>
    refine h.shrink hk rfl (fun _ _ he => he) ?_ ?_ (fun _ => id) rfl (fun _ hm => .inl hm)
    · intro m e he hm
      by_cases hstale : m ∈ stale
      · exact .inr hstale
      · exact .inl (mem_srem.mpr ⟨hm, hstale⟩)
    · intro m x hm hx
      exact ⟨(mem_srem.mp hm).1, indexExpireAt_srem hm hx⟩
  | saddFails info err pc => cases hok.1
  | expireFails info err pc => cases hok
  | setFails info =>
    exact h.shrink hk rfl (fun _ _ he => he) (fun _ _ _ hm => .inl hm) (fun _ _ hm hx => ⟨hm, hx⟩)
      (fun _ => id) rfl nofun
  | reads hset hindexed htimed hstale =>
    rw [noteAdd_of_ne hset]
    exact h.shrink hk rfl (fun _ _ he => he) (fun _ _ _ hm => .inl hm) (fun _ _ hm hx => ⟨hm, hx⟩)
      hindexed htimed hstale

theorem Visible.step {s' : State} {a : Action} (h : Visible s) (hok : Undisturbed s a)
    (hstep : Presence.step s a = some s') : Visible s' := by
  cases a with
  | add info | remove clientID | get =>
    cases hstep
    exact h.start rfl
  | call k env =>
    obtain ⟨pc, ⟨t, pc'⟩, hk, ht, rfl⟩ := bind_map_eq_some hstep
    exact h.call hk hok (advances_of_advance ht)
  | tick d =>
    cases hstep
    exact h.tick hok

/-- Unless an `Add` indexes a member that a `Get` is about to prune or to report, or the index
expires inside an `Add`: when all calls are back, every member with a key is in the index, and no
`Get` reports a member that is present. -/
theorem presence_visible {as : List Action} (hrun : run .init as = some s)
    (hok : Transition.Along Presence.step Undisturbed .init as) :
    ((∀ c ∈ s.calls, ∃ r, c = .returned r) →
      ∀ m, (s.store.members m).isSome → m ∈ s.store.index) ∧
    ∀ (k : Nat) result todo m, s.calls[k]? = some (.hooks result todo) → m ∈ todo →
      ¬ Present s m := by
  have h : Visible s := Transition.invariant_along visible_init
    (fun s a t hs ha hstep => hs.step ha hstep) hrun hok
  constructor
  · intro hdone m hm
    obtain ⟨e, he⟩ := isSome_iff_exists.mp hm
    rcases h.indexed m e he with hindex | ⟨c, hc, hun⟩
    · exact hindex
    · obtain ⟨r, rfl⟩ := hdone c hc
      exact hun.elim
  · rintro k result todo m hk hm ⟨hkey, i, r, hi, hr⟩
    obtain ⟨e, he⟩ := isSome_iff_exists.mp hkey
    obtain ⟨j, d, hj, hd, hun⟩ := h.readded _ (mem_of_getElem? hk) m hm e he
    cases hi.symm.trans hj
    cases hr.symm.trans hd
    exact hun.elim

end Visibility

section Runs

def ada : PresenceInfo := ⟨"a", "ada", 0, "a", ""⟩

def bob : PresenceInfo := ⟨"b", "bob", 0, "b", ""⟩

def commands (k n : Nat) : List Action :=
  List.replicate n (.call k ⟨true, 0⟩)

def staleRead : List Action :=
  [.add ada] ++ commands 0 3 ++ [.tick 30, .add bob] ++ commands 1 3 ++
    [.tick 40, .get, .call 2 ⟨true, 0⟩, .call 2 ⟨true, 1⟩]

def readds : List Action :=
  [.add ada] ++ commands 3 3

def prunes (between : List Action) : List Action :=
  staleRead ++ between ++ commands 2 3

theorem returned_of_all (h : s.calls.all fun c => c matches .returned _) :
    ∀ c ∈ s.calls, ∃ r, c = .returned r := by
  intro c hc
  have hreturned := all_eq_true.mp h c hc
  cases c with
  | returned r => exact ⟨r, rfl⟩
  | _ => cases hreturned

theorem presence_visible_pruned :
    ∃ s, run .init (prunes [] ++ commands 2 2 ++ readds) = some s ∧
      (∀ c ∈ s.calls, ∃ r, c = .returned r) ∧ (s.store.members "a").isSome ∧
      "a" ∈ s.store.index := by
  have hend : (run .init (prunes [] ++ commands 2 2 ++ readds)).map (fun s =>
      (s.calls.all fun c => c matches .returned _, (s.store.members "a").isSome)) =
      some (true, true) := by
    decide +kernel
  obtain ⟨s, hs, hend⟩ := map_eq_some_iff.mp hend
  obtain ⟨hall, hkey⟩ := Prod.mk.inj hend
  have hok : Transition.Along step Undisturbed .init (prunes [] ++ commands 2 2 ++ readds) := by
    decide +kernel
  exact ⟨s, hs, returned_of_all hall, hkey,
    (presence_visible hs hok).1 (returned_of_all hall) "a" hkey⟩

/-- `a` is added again between the `Get`'s read and its prune: the hook is called for a client that
is present, and at the end its key exists but the index does not list it. -/
theorem presence_invisible :
    (∃ s, run .init (prunes readds) = some s ∧ Present s "a" ∧
      ∃ result, s.calls[2]? = some (.hooks result ["a"])) ∧
    ∃ s, run .init (prunes readds ++ commands 2 2) = some s ∧
      (∀ c ∈ s.calls, ∃ r, c = .returned r) ∧ (s.store.members "a").isSome ∧
      "a" ∉ s.store.index := by
  have hhook : (run .init (prunes readds)).map (fun s => ((s.store.members "a").isSome,
      s.lastAdd "a", s.calls[3]?, s.calls[2]?)) =
      some (true, some 3, some (.returned .nil), some (.hooks [bob] ["a"])) := by
    decide +kernel
  have hend : (run .init (prunes readds ++ commands 2 2)).map (fun s =>
      (s.calls.all fun c => c matches .returned _, (s.store.members "a").isSome, s.store.index)) =
      some (true, true, ["b"]) := by
    decide +kernel
  obtain ⟨s, hs, hhook⟩ := map_eq_some_iff.mp hhook
  obtain ⟨t, ht, hend⟩ := map_eq_some_iff.mp hend
  simp only [Prod.mk.injEq] at hhook hend
  obtain ⟨hkey, hadd, hreturned, hget⟩ := hhook
  obtain ⟨hall, htkey, hindex⟩ := hend
  exact ⟨⟨s, hs, ⟨hkey, 3, .nil, hadd, hreturned⟩, [bob], hget⟩,
    t, ht, returned_of_all hall, htkey, by simp [hindex]⟩

end Runs

end MessageLoop.Redis.Presence
