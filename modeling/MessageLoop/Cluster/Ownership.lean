import MessageLoop.Lib.Transition
import MessageLoop.Cluster.Directory

/-!
What a former owner of a session can still do to its directory entries
(`internal/runtime/cluster_state.go`).

The syncs and deletions of one node run against everything that other nodes do to the lease: they
claim it, store their own state, roll a claim back, delete the lease, or let it expire. Every
directory operation is a step and everything interleaves.
-/

namespace MessageLoop.Ownership

open Option Ownership

/-- The node that is watched, and the session with its object there. -/
structure Config where
  owner : NodeIdentity
  sessionID : String
  session : SessionRef

/-- A sync of the watched node. `fresh` says that it has begun under another node's claim that was
not released before it returned, `answered` that the directory has answered it so far. -/
structure Watched where
  sync : Sync
  fresh : Bool
  answered : Bool

/-- `holder` is the other node that has the lease by its last claim or store, `written` the
snapshot it has stored. -/
structure State where
  node : Node
  syncs : List Watched
  deletions : List DeletePc
  directory : Directory
  holder : Option NodeIdentity
  written : Option SessionSnapshot

/-- `change` is any local change on the watched node, a new lease version included; `claim` is the
swap with which another node resumes the session, `store` the one of its own syncs. -/
inductive Action where
  | change (n : Node)
  | beginSync
  | sync (k : Nat) (ok : Bool)
  | beginDelete
  | delete (k : Nat) (ok expired : Bool)
  | claim (expected desired : SessionLease)
  | store (expected : Option SessionLease) (desired : SessionLease) (snapshot : SessionSnapshot)
  | rollback (claimed original : SessionLease)
  | drop (holder : NodeIdentity)
  | expire

def Watched.returned (w : Watched) : Bool :=
  match w.sync.pc with
  | .returned _ => true
  | _ => false

def State.release (s : State) (d : Directory) : State :=
  { s with
    directory := d
    holder := none
    written := none
    syncs := s.syncs.map fun w => { w with fresh := w.fresh && w.returned } }

section Steps
variable (cfg : Config)

def foreign (desired : SessionLease) : Bool :=
  desired.sessionID = cfg.sessionID ∧ desired.owner ≠ cfg.owner

def syncStep (s : State) (k : Nat) (ok : Bool) : Option State :=
  s.syncs[k]?.bind fun w =>
    (w.sync.step cfg.owner s.directory ok).map fun r =>
      { s with
        directory := r.1
        syncs := s.syncs.set k { w with sync := r.2, answered := w.answered && ok } }

def deleteStep (s : State) (k : Nat) (ok expired : Bool) : Option State :=
  s.deletions[k]?.bind fun pc =>
    (pc.step cfg.owner cfg.sessionID s.directory ok expired).map fun r =>
      { s with directory := r.1, deletions := s.deletions.set k r.2 }

def step (s : State) : Action → Option State
  | .change n => if n.sessionID cfg.session = cfg.sessionID then some { s with node := n } else none
  | .beginSync => some { s with
      syncs := s.syncs ++ [⟨s.node.beginSync cfg.owner cfg.session, s.holder.isSome, true⟩] }
  | .sync k ok => syncStep cfg s k ok
  | .beginDelete => some { s with deletions := s.deletions ++ [.get] }
  | .delete k ok expired => deleteStep cfg s k ok expired
  | .claim expected desired =>
    if foreign cfg desired then
      (s.directory.compareAndSwapSessionLease (some expected) desired).map fun d =>
        { s with directory := d, holder := some desired.owner, written := none }
    else none
  | .store expected desired snapshot =>
    if foreign cfg desired then
      (s.directory.compareAndSwapSessionState expected desired snapshot).map fun d =>
        { s with directory := d, holder := some desired.owner, written := some snapshot }
    else none
  | .rollback claimed original =>
    if original.sessionID = cfg.sessionID then
      (s.directory.compareAndSwapSessionLease (some claimed) original).map s.release
    else none
  | .drop holder =>
    if (s.directory.leases cfg.sessionID).map SessionLease.owner = some holder then
      some (s.release (s.directory.deleteSessionLeaseIfOwner cfg.sessionID holder))
    else none
  | .expire => some (s.release
      { s.directory with leases := Function.update s.directory.leases cfg.sessionID none })

abbrev run : State → List Action → Option State :=
  Transition.run (step cfg)

end Steps

structure Start (cfg : Config) (s : State) : Prop where
  sessionID : s.node.sessionID cfg.session = cfg.sessionID
  syncs : s.syncs = []
  deletions : s.deletions = []
  holder : s.holder = none
  written : s.written = none

section Invariant

/-- A fresh sync is at its beginning, or was fenced if it got an answer. -/
def Watched.Fenced (w : Watched) : Prop :=
  w.fresh → w.sync.pc = .get ∨
    w.sync.pc = .returned (if w.answered then .fenced else .failed)

structure Inv (cfg : Config) (s : State) : Prop where
  sessionID : s.node.sessionID cfg.session = cfg.sessionID
  held : ∀ holder ∈ s.holder, holder ≠ cfg.owner ∧
    ∃ lease, s.directory.leases cfg.sessionID = some lease ∧ lease.owner = holder
  released : s.holder = none → s.written = none
  syncs : ∀ w ∈ s.syncs, w.sync.By cfg.sessionID cfg.owner ∧ w.Fenced ∧
    (w.fresh → w.sync.pc = .get → s.holder.isSome ∧ w.answered)

variable {cfg : Config} {s s' : State} {a : Action} {k : Nat} {ok expired : Bool}

theorem inv_start (h : Start cfg s) : Inv cfg s := by
  refine ⟨h.sessionID, ?_, fun _ => h.written, ?_⟩
  · rw [h.holder]
    exact nofun
  · rw [h.syncs]
    exact List.forall_mem_nil _

variable (h : Inv cfg s)
include h

theorem Inv.sync_directory (hheld : s.holder.isSome)
    (hstep : syncStep cfg s k ok = some s') : s'.directory = s.directory := by
  obtain ⟨holder, hholder⟩ := isSome_iff_exists.mp hheld
  obtain ⟨hother, lease, hlease, rfl⟩ := h.held holder hholder
  obtain ⟨w, ⟨d, y⟩, hw, hr, rfl⟩ := bind_map_eq_some hstep
  exact (Sync.step_of_taken (h.syncs w (List.mem_of_getElem? hw)).1 hlease hother hr).1

theorem Inv.sync (hstep : syncStep cfg s k ok = some s') : Inv cfg s' := by
  have hdirectory : s.holder.isSome → s'.directory = s.directory :=
    fun hheld => h.sync_directory hheld hstep
  obtain ⟨w, ⟨d, y⟩, hw, hr, rfl⟩ := bind_map_eq_some hstep
  obtain ⟨hby, hfenced, hget⟩ := h.syncs w (List.mem_of_getElem? hw)
  -- a fresh sync takes its first step, and finds the lease of another node
  have hfresh : w.fresh → w.answered ∧ y.pc = .returned (if ok then .fenced else .failed) := by
    intro hf
    rcases hfenced hf with hpc | hpc
    · obtain ⟨hheld, hanswered⟩ := hget hf hpc
      obtain ⟨holder, hholder⟩ := isSome_iff_exists.mp hheld
      obtain ⟨hother, lease, hlease, rfl⟩ := h.held holder hholder
      exact ⟨hanswered, (Sync.step_of_taken hby hlease hother hr).2.2⟩
    · simp [Sync.step, hpc] at hr
  refine ⟨h.sessionID, ?_, h.released, ?_⟩
  · intro holder hholder
    have hsame : d = s.directory := hdirectory (isSome_of_mem hholder)
    rw [hsame]
    exact h.held holder hholder
  · intro v hv
    rcases List.mem_or_eq_of_mem_set hv with hv | rfl
    · exact h.syncs v hv
    · refine ⟨hby.step hr, ?_, ?_⟩
      · intro hf
        obtain ⟨hanswered, hpc⟩ := hfresh hf
        right
        simpa [hanswered] using hpc
      · intro hf hpc
        rw [(hfresh hf).2] at hpc
        cases hpc

theorem Inv.delete (hstep : deleteStep cfg s k ok expired = some s') :
    Inv cfg s' := by
  obtain ⟨pc, ⟨d, pc'⟩, hpc, hr, rfl⟩ := bind_map_eq_some hstep
  refine { h with held := ?_ }
  intro holder hholder
  obtain ⟨hother, lease, hlease, rfl⟩ := h.held holder hholder
  exact ⟨hother, lease, (DeletePc.step_cases hr).1 lease hlease hother, rfl⟩

theorem Inv.take {desired : SessionLease} {d : Directory} {written : Option SessionSnapshot}
    (hforeign : foreign cfg desired)
    (hleases : d.leases = Function.update s.directory.leases desired.sessionID (some desired)) :
    Inv cfg { s with directory := d, holder := some desired.owner, written := written } := by
  obtain ⟨hsid, hother⟩ : desired.sessionID = cfg.sessionID ∧ desired.owner ≠ cfg.owner := by
    simpa [foreign] using hforeign
  refine ⟨h.sessionID, ?_, nofun, ?_⟩
  · intro holder hholder
    cases hholder
    refine ⟨hother, desired, ?_, rfl⟩
    rw [hleases, hsid]
    exact Function.update_self _ _ _
  · intro w hw
    obtain ⟨hby, hfenced, hget⟩ := h.syncs w hw
    exact ⟨hby, hfenced, fun hf hpc => ⟨rfl, (hget hf hpc).2⟩⟩

theorem Inv.release (d : Directory) : Inv cfg (s.release d) := by
  refine ⟨h.sessionID, nofun, fun _ => rfl, List.forall_mem_map.mpr fun v hv => ?_⟩
  obtain ⟨hby, hfenced, -⟩ := h.syncs v hv
  refine ⟨{ hby with }, ?_, ?_⟩
  · intro hf
    exact hfenced (Bool.and_elim_left hf)
  · intro hf hpc
    have hreturned : v.returned = true := Bool.and_elim_right hf
    have hget : v.sync.pc = .get := hpc
    simp [Watched.returned, hget] at hreturned

theorem Inv.step (hstep : step cfg s a = some s') : Inv cfg s' := by
  cases a with
  | change n =>
    simp only [step] at hstep
    split_ifs at hstep with hn
    cases hstep
    exact { h with sessionID := hn }
  | beginSync =>
    cases hstep
    refine { h with syncs := List.forall_mem_snoc h.syncs ?_ }
    rw [← h.sessionID]
    exact ⟨beginSync_by, fun _ => .inl rfl, fun hf _ => ⟨hf, rfl⟩⟩
  | sync k ok => exact h.sync hstep
  | beginDelete =>
    cases hstep
    exact { h with }
  | delete k ok expired => exact h.delete hstep
  | claim expected desired =>
    simp only [step] at hstep
    split_ifs at hstep with hforeign
    obtain ⟨d, hd, rfl⟩ := map_eq_some_iff.mp hstep
    exact h.take hforeign (congrArg Directory.leases (compareAndSwapSessionLease_eq_some hd))
  | store expected desired snapshot =>
    simp only [step] at hstep
    split_ifs at hstep with hforeign
    obtain ⟨d, hd, rfl⟩ := map_eq_some_iff.mp hstep
    exact h.take hforeign (congrArg Directory.leases (compareAndSwapSessionState_eq_some hd))
  | rollback claimed original =>
    simp only [step] at hstep
    split_ifs at hstep
    obtain ⟨d, hd, rfl⟩ := map_eq_some_iff.mp hstep
    exact h.release d
  | drop holder =>
    simp only [step] at hstep
    split_ifs at hstep
    cases hstep
    exact h.release _
  | expire =>
    cases hstep
    exact h.release _

end Invariant

section Runs

def leaving : Config := ⟨⟨"a", "7"⟩, "s1", 0⟩

def ownLease : SessionLease := ⟨"s1", ⟨"a", "7"⟩, "", "", "", 1, true⟩

def newLease : SessionLease := ⟨"s1", ⟨"b", "9"⟩, "", "", "", 2, true⟩

def noChannels : SessionSnapshot := ⟨"", "", "", ∅, fun _ => 0⟩

def owned : State where
  node := .new true fun _ => .newClient "s1" ⟨0, 0, .protobuf⟩
  syncs := []
  deletions := []
  directory := ⟨fun sid => if sid = "s1" then some ownLease else none,
    fun sid => if sid = "s1" then some noChannels else none⟩
  holder := none
  written := none

theorem start_owned : Start leaving owned := ⟨rfl, rfl, rfl, rfl, rfl⟩

end Runs

section Fencing

/-- While another node holds the lease, no sync of the watched node changes the directory, and a
sync that runs under its claim from beginning to end is fenced. -/
theorem claim_fences {cfg : Config} {start s : State} {as : List Action} (hstart : Start cfg start)
    (hrun : run cfg start as = some s) :
    (s.holder.isSome → ∀ k ok s', step cfg s (.sync k ok) = some s' →
        s'.directory = s.directory) ∧
      ∀ w ∈ s.syncs, w.fresh → ∀ result, w.sync.pc = .returned result →
        result = if w.answered then .fenced else .failed := by
  have hinv : Inv cfg s :=
    Transition.invariant (inv_start hstart) (fun _ _ _ h hstep => h.step hstep) hrun
  refine ⟨fun hheld k ok s' hstep => hinv.sync_directory hheld hstep, ?_⟩
  intro w hw hfresh result hreturned
  rcases (hinv.syncs w hw).2.1 hfresh with hpc | hpc
  · rw [hpc] at hreturned
    cases hreturned
  · rw [hpc] at hreturned
    cases hreturned
    rfl

def claimedMeanwhile : List Action :=
  [.beginSync, .sync 0 true, .claim ownLease newLease, .sync 0 true, .beginSync, .sync 1 true]

theorem claim_fences_meanwhile :
    ∃ s, run leaving owned claimedMeanwhile = some s ∧ s.holder.isSome ∧
      s.syncs.map Watched.fresh = [false, true] ∧
      (∀ w ∈ s.syncs, w.fresh → ∀ result, w.sync.pc = .returned result →
        result = if w.answered then .fenced else .failed) :=
  ⟨_, rfl, rfl, rfl,
    (claim_fences start_owned (rfl : run leaving owned claimedMeanwhile = _)).2⟩

end Fencing

section Deletion

def Present (cfg : Config) (s : State) : Prop :=
  ∀ holder ∈ s.holder,
    (∃ lease, s.directory.leases cfg.sessionID = some lease ∧ lease.owner = holder) ∧
      ∀ snapshot ∈ s.written, s.directory.snapshots cfg.sessionID = some snapshot

/-- No snapshot is deleted after a new owner has stored its own. -/
def Unwritten (s : State) : Action → Prop
  | .delete k ok _ => s.deletions[k]? = some .snapshot → ok = true → s.written.isNone
  | _ => True

instance (s : State) (a : Action) : Decidable (Unwritten s a) := by
  unfold Unwritten
  split <;> infer_instance

def Stored (cfg : Config) (s : State) : Prop :=
  ∀ snapshot ∈ s.written, s.directory.snapshots cfg.sessionID = some snapshot

variable {cfg : Config} {s s' : State} {a : Action} {k : Nat} {ok expired : Bool}

theorem Stored.step (hinv : Inv cfg s) (h : Stored cfg s) (hok : Unwritten s a)
    (hstep : step cfg s a = some s') : Stored cfg s' := by
  cases a with
  | change n =>
    simp only [step] at hstep
    split_ifs at hstep
    cases hstep
    exact h
  | beginSync | beginDelete =>
    cases hstep
    exact h
  | sync k ok =>
    intro snapshot hsnapshot
    have hwritten : s'.written = s.written := by
      obtain ⟨w, r, -, -, rfl⟩ := bind_map_eq_some hstep
      rfl
    rw [hwritten] at hsnapshot
    -- the snapshot is that of a holder, under which the sync changes nothing
    have hheld : s.holder.isSome := by
      by_contra hnone
      have hnone : s.holder = none := by simpa using hnone
      rw [hinv.released hnone] at hsnapshot
      cases hsnapshot
    rw [hinv.sync_directory hheld hstep]
    exact h snapshot hsnapshot
  | delete k ok expired =>
    obtain ⟨pc, ⟨d, pc'⟩, hpc, hr, rfl⟩ := bind_map_eq_some hstep
    intro snapshot hsnapshot
    rcases (DeletePc.step_cases hr).2 with hsame | ⟨rfl, rfl⟩
    · have hstored := h snapshot hsnapshot
      rwa [← hsame] at hstored
    · have hnone := hok hpc rfl
      rw [show s.written = some snapshot from hsnapshot] at hnone
      cases hnone
  | claim expected desired | rollback claimed original =>
    simp only [step] at hstep
    split_ifs at hstep
    obtain ⟨d, -, rfl⟩ := map_eq_some_iff.mp hstep
    exact nofun
  | store expected desired snapshot =>
    simp only [step] at hstep
    split_ifs at hstep with hforeign
    obtain ⟨d, hd, rfl⟩ := map_eq_some_iff.mp hstep
    have hsid : desired.sessionID = cfg.sessionID := (by simpa [foreign] using hforeign :
      desired.sessionID = cfg.sessionID ∧ desired.owner ≠ cfg.owner).1
    intro read hread
    cases hread
    rw [compareAndSwapSessionState_eq_some hd, hsid]
    exact Function.update_self _ _ _
  | drop holder =>
    simp only [step] at hstep
    split_ifs at hstep
    cases hstep
    exact nofun
  | expire =>
    cases hstep
    exact nofun

/-- A former owner's deletions leave alone what the new owner writes after them. -/
theorem deletion_owner_safe {start : State} {as : List Action} (hstart : Start cfg start)
    (hrun : run cfg start as = some s)
    (hunwritten : Transition.Along (step cfg) Unwritten start as) : Present cfg s := by
  have hinv : Inv cfg s ∧ Stored cfg s := by
    refine Transition.invariant_along (P := fun s => Inv cfg s ∧ Stored cfg s)
      ⟨inv_start hstart, ?_⟩ ?_ hrun hunwritten
    · intro snapshot hsnapshot
      rw [hstart.written] at hsnapshot
      cases hsnapshot
    · intro s a t h hok hstep
      exact ⟨h.1.step hstep, h.2.step h.1 hok hstep⟩
  intro holder hholder
  exact ⟨(hinv.1.held holder hholder).2, hinv.2⟩

def storedLate : List Action :=
  [.beginDelete, .delete 0 true false, .claim ownLease newLease, .delete 0 true false,
    .delete 0 true false, .store (some newLease) newLease noChannels]

theorem deletion_owner_safe_storedLate :
    ∃ s, run leaving owned storedLate = some s ∧ s.holder.isSome ∧ s.written.isSome ∧
      Present leaving s :=
  ⟨_, rfl, rfl, rfl,
    deletion_owner_safe start_owned (rfl : run leaving owned storedLate = _) (by decide)⟩

/-- Claim and store both fall between the deletion's first look at the lease and its last
operation, which asks nobody. -/
theorem deletion_removes_new_snapshot :
    Start leaving owned ∧
      ∃ as s, run leaving owned as = some s ∧ s.deletions = [.returned] ∧
        s.holder = some ⟨"b", "9"⟩ ∧ s.written.isSome ∧
        s.directory.snapshots "s1" = none ∧ ¬ Present leaving s := by
  refine ⟨start_owned, [.beginDelete, .delete 0 true false, .claim ownLease newLease,
    .store (some newLease) newLease noChannels, .delete 0 true false, .delete 0 true false],
    _, rfl, rfl, rfl, rfl, rfl, ?_⟩
  intro hpresent
  have hstored := (hpresent ⟨"b", "9"⟩ rfl).2 noChannels rfl
  cases hstored

end Deletion

end MessageLoop.Ownership
