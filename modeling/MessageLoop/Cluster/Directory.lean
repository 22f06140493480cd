import MessageLoop.Runtime.Node

/-!
The session directory that the nodes of a cluster share (`pkg/redisbroker/cluster_directory.go`),
and the sync of a session to it and its deletion from it (`syncClusterSessionState` and
`deleteClusterSessionState` in `internal/runtime/cluster_state.go`), one directory operation a step.
-/

namespace MessageLoop

open Function

structure NodeIdentity where
  nodeID : String
  incarnationID : String
  deriving DecidableEq, Repr

structure SessionLease where
  sessionID : String
  owner : NodeIdentity
  userID : String
  ns : String
  clientID : String
  leaseVersion : Nat
  authenticated : Bool
  deriving DecidableEq, Repr

structure SessionLease.HeldBy (lease : SessionLease) (sid : String) (owner : NodeIdentity)
    (version : Nat) : Prop where
  sessionID : lease.sessionID = sid
  owner : lease.owner = owner
  leaseVersion : lease.leaseVersion = version

def clusterSessionLeaseEqual : Option SessionLease → Option SessionLease → Bool
  | none, none => true
  | some left, some right =>
    left.sessionID = right.sessionID ∧ left.owner = right.owner ∧
      left.leaseVersion = right.leaseVersion
  | _, _ => false

structure Directory where
  leases : String → Option SessionLease
  snapshots : String → Option SessionSnapshot

open Directory

namespace Directory

/-- The result is none when the compare fails and nothing is written. -/
def compareAndSwapSessionLease (d : Directory) (expected : Option SessionLease)
    (desired : SessionLease) : Option Directory :=
  if desired.sessionID = "" then none
  else if clusterSessionLeaseEqual (d.leases desired.sessionID) expected then
    some { d with leases := Function.update d.leases desired.sessionID (some desired) }
  else none

def compareAndSwapSessionState (d : Directory) (expected : Option SessionLease)
    (desired : SessionLease) (snapshot : SessionSnapshot) : Option Directory :=
  if desired.sessionID = "" then none
  else if clusterSessionLeaseEqual (d.leases desired.sessionID) expected then
    some {
      leases := Function.update d.leases desired.sessionID (some desired)
      snapshots := Function.update d.snapshots desired.sessionID (some snapshot) }
  else none

def deleteSessionLeaseIfOwner (d : Directory) (sid : String) (owner : NodeIdentity) : Directory :=
  if sid = "" ∨ owner.nodeID = "" ∨ owner.incarnationID = "" then d
  else if (d.leases sid).map SessionLease.owner = some owner then
    { d with leases := Function.update d.leases sid none }
  else d

def deleteSessionSnapshot (d : Directory) (sid : String) : Directory :=
  if sid = "" then d else { d with snapshots := Function.update d.snapshots sid none }

end Directory

def Node.clusterSessionLease (n : Node) (self : NodeIdentity) (c : SessionRef) : SessionLease where
  sessionID := (n.sessions c).session
  owner := self
  userID := (n.sessions c).user
  ns := (n.sessions c).ns
  clientID := (n.sessions c).client
  leaseVersion := (n.sessions c).leaseVersion
  authenticated := (n.sessions c).authenticated

inductive SyncResult where
  | ok
  | fenced
  | failed
  deriving DecidableEq, Repr

inductive SyncPc where
  | get
  | swap (current : Option SessionLease)
  | returned (result : SyncResult)
  deriving DecidableEq, Repr

structure Sync where
  desired : SessionLease
  snapshot : SessionSnapshot
  pc : SyncPc

def Node.beginSync (n : Node) (self : NodeIdentity) (c : SessionRef) : Sync :=
  ⟨n.clusterSessionLease self c, n.clusterSessionSnapshot c, .get⟩

def Sync.stores (y : Sync) : Bool :=
  match y.pc with
  | .swap _ => true
  | _ => false

/-- `ok` is false when the directory does not answer. -/
def Sync.step (self : NodeIdentity) (d : Directory) (y : Sync) (ok : Bool) :
    Option (Directory × Sync) :=
  match y.pc with
  | .get =>
    if ok then
      match d.leases y.desired.sessionID with
      | none => some (d, { y with pc := .swap none })
      | some current =>
        if current.owner ≠ self ∨ y.desired.leaseVersion < current.leaseVersion then
          some (d, { y with pc := .returned .fenced })
        else some (d, { y with pc := .swap (some current) })
    else some (d, { y with pc := .returned .failed })
  | .swap current =>
    if ok then
      match d.compareAndSwapSessionState current y.desired y.snapshot with
      | some d => some (d, { y with pc := .returned .ok })
      | none => some (d, { y with pc := .returned .fenced })
    else some (d, { y with pc := .returned .failed })
  | .returned _ => none

section Syncs
variable {sid : String} {owner : NodeIdentity} {version : Nat}
variable {d d' : Directory} {lease : SessionLease} {y y' : Sync} {ok : Bool}

theorem clusterSessionLeaseEqual_of_heldBy {left right : SessionLease}
    (hleft : left.HeldBy sid owner version) (hright : right.HeldBy sid owner version) :
    clusterSessionLeaseEqual (some left) (some right) := by
  simp [clusterSessionLeaseEqual, hleft.sessionID, hright.sessionID, hleft.owner, hright.owner,
    hleft.leaseVersion, hright.leaseVersion]

theorem clusterSessionLeaseEqual_of_owner_ne {left right : SessionLease}
    (hne : left.owner ≠ right.owner) : clusterSessionLeaseEqual (some left) (some right) = false := by
  simp [clusterSessionLeaseEqual, hne]

theorem compareAndSwapSessionLease_eq_some {expected : Option SessionLease}
    (h : d.compareAndSwapSessionLease expected lease = some d') :
    d' = { d with leases := update d.leases lease.sessionID (some lease) } := by
  unfold compareAndSwapSessionLease at h
  split_ifs at h
  exact (Option.some.inj h).symm

theorem compareAndSwapSessionState_eq_some {expected : Option SessionLease}
    {snapshot : SessionSnapshot}
    (h : d.compareAndSwapSessionState expected lease snapshot = some d') :
    d' = ⟨update d.leases lease.sessionID (some lease),
      update d.snapshots lease.sessionID (some snapshot)⟩ := by
  unfold compareAndSwapSessionState at h
  split_ifs at h
  exact (Option.some.inj h).symm

theorem expected_of_compareAndSwapSessionLease {expected : Option SessionLease}
    (h : d.compareAndSwapSessionLease expected lease = some d') :
    clusterSessionLeaseEqual (d.leases lease.sessionID) expected := by
  unfold compareAndSwapSessionLease at h
  split_ifs at h with _ hequal
  exact hequal

/-- What one step of a sync comes to. It goes on to write only if the lease it has read is one of
its own node and no newer than its own, and writes only over that lease. -/
inductive Sync.Moves (self : NodeIdentity) (d : Directory) :
    Sync → Bool → Directory → Sync → Prop where
  | unanswered {y : Sync} (h : ∀ result, y.pc ≠ .returned result) :
      Moves self d y false d { y with pc := .returned .failed }
  | fenced {desired snapshot current : _} (h : d.leases desired.sessionID = some current)
      (hnewer : current.owner ≠ self ∨ desired.leaseVersion < current.leaseVersion) :
      Moves self d ⟨desired, snapshot, .get⟩ true d ⟨desired, snapshot, .returned .fenced⟩
  | read {desired snapshot : _} (h : ∀ lease ∈ d.leases desired.sessionID,
        lease.owner = self ∧ lease.leaseVersion ≤ desired.leaseVersion) :
      Moves self d ⟨desired, snapshot, .get⟩ true d
        ⟨desired, snapshot, .swap (d.leases desired.sessionID)⟩
  | lost {desired snapshot current : _} (h : desired.sessionID = "" ∨
        clusterSessionLeaseEqual (d.leases desired.sessionID) current = false) :
      Moves self d ⟨desired, snapshot, .swap current⟩ true d
        ⟨desired, snapshot, .returned .fenced⟩
  | stored {desired snapshot current : _}
      (h : clusterSessionLeaseEqual (d.leases desired.sessionID) current) :
      Moves self d ⟨desired, snapshot, .swap current⟩ true
        ⟨update d.leases desired.sessionID (some desired),
          update d.snapshots desired.sessionID (some snapshot)⟩
        ⟨desired, snapshot, .returned .ok⟩

theorem Sync.moves_of_step {self : NodeIdentity} (h : y.step self d ok = some (d', y')) :
    Moves self d y ok d' y' := by
  obtain ⟨desired, snapshot, pc⟩ := y
  cases pc with
  | get =>
    cases ok with
    | false =>
      cases h
      exact .unanswered nofun
    | true =>
      simp only [Sync.step, if_true] at h
      cases hcurrent : d.leases desired.sessionID with
      | none =>
        simp only [hcurrent] at h
        cases h
        rw [← hcurrent]
        exact .read (by simp [hcurrent])
      | some current =>
        simp only [hcurrent] at h
        split_ifs at h with hfenced <;> cases h
        · exact .fenced hcurrent hfenced
        · rw [← hcurrent]
          exact .read (by simpa [hcurrent, not_or] using hfenced)
  | swap current =>
    cases ok with
    | false =>
      cases h
      exact .unanswered nofun
    | true =>
      simp only [Sync.step, compareAndSwapSessionState, if_true] at h
      split_ifs at h with hnamed hequal <;> cases h
      · exact .lost (.inl hnamed)
      · exact .stored hequal
      · exact .lost (.inr (by simpa using hequal))
  | returned result => cases h

theorem Sync.step_of_unanswered {self : NodeIdentity} (h : y.step self d false = some (d', y')) :
    d' = d ∧ y' = { y with pc := .returned .failed } := by
  obtain ⟨desired, snapshot, pc⟩ := y
  cases pc <;> cases h <;> exact ⟨rfl, rfl⟩

/-- A sync of the session by `owner`, which has seen no other lease so far. -/
structure Sync.Of (y : Sync) (sid : String) (owner : NodeIdentity) (version : Nat) : Prop where
  desired : y.desired.HeldBy sid owner version
  current : ∀ current, y.pc = .swap current →
    ∃ lease : SessionLease, current = some lease ∧ lease.HeldBy sid owner version

theorem beginSync_of {n : Node} {c : SessionRef} :
    (n.beginSync owner c).Of (n.sessionID c) owner (n.sessions c).leaseVersion :=
  ⟨⟨rfl, rfl, rfl⟩, nofun⟩

theorem Sync.step_of_held (hy : y.Of sid owner version) (hnamed : sid ≠ "")
    (hlease : d.leases sid = some lease) (hheld : lease.HeldBy sid owner version)
    (h : y.step owner d ok = some (d', y')) :
    y'.Of sid owner version ∧ y'.pc ≠ .returned .fenced ∧
      (d' = d ∧ y'.pc ≠ .returned .ok ∨
        (∃ current, y.pc = .swap current) ∧ y'.pc = .returned .ok ∧
          d' = ⟨update d.leases sid (some y.desired),
            update d.snapshots sid (some y.snapshot)⟩) := by
  have hsid := hy.desired.sessionID
  have hversion := hy.desired.leaseVersion
  cases moves_of_step h with
  | unanswered _ => exact ⟨⟨hy.desired, nofun⟩, nofun, .inl ⟨rfl, nofun⟩⟩
  | fenced hcurrent hnewer =>
    rw [hsid, hlease] at hcurrent
    cases hcurrent
    rcases hnewer with hnewer | hnewer
    · exact absurd hheld.owner hnewer
    · exact absurd hnewer (hheld.leaseVersion.trans hversion.symm).not_gt
  | read _ =>
    refine ⟨⟨hy.desired, ?_⟩, nofun, .inl ⟨rfl, nofun⟩⟩
    rintro _ ⟨⟩
    rw [hsid]
    exact ⟨lease, hlease, hheld⟩
  | lost hfails =>
    obtain ⟨seen, rfl, hseen⟩ := hy.current _ rfl
    rw [hsid, hlease, clusterSessionLeaseEqual_of_heldBy hheld hseen] at hfails
    simp [hnamed] at hfails
  | stored _ => exact ⟨⟨hy.desired, nofun⟩, nofun, .inr ⟨⟨_, rfl⟩, rfl, by rw [hsid]⟩⟩

/-- A sync of the session by `owner`; a lease that it has read is its own. -/
structure Sync.By (y : Sync) (sid : String) (holder : NodeIdentity) : Prop where
  sessionID : y.desired.sessionID = sid
  owner : y.desired.owner = holder
  current : ∀ current, y.pc = .swap (some current) → current.owner = holder

theorem beginSync_by {n : Node} {c : SessionRef} : (n.beginSync owner c).By (n.sessionID c) owner :=
  ⟨rfl, rfl, nofun⟩

theorem Sync.Of.toBy (hy : y.Of sid owner version) : y.By sid owner := by
  refine ⟨hy.desired.sessionID, hy.desired.owner, ?_⟩
  intro current hpc
  obtain ⟨lease, hlease, hheld⟩ := hy.current _ hpc
  cases hlease
  exact hheld.owner

theorem Sync.By.step (hy : y.By sid owner) (h : y.step owner d ok = some (d', y')) :
    y'.By sid owner := by
  obtain ⟨hsid, howner, -⟩ := hy
  cases moves_of_step h with
  | read hread =>
    refine ⟨hsid, howner, ?_⟩
    intro current hpc
    exact (hread current (SyncPc.swap.inj hpc)).1
  | _ => exact ⟨hsid, howner, nofun⟩

theorem Sync.step_of_taken (hy : y.By sid owner) (hlease : d.leases sid = some lease)
    (htaken : lease.owner ≠ owner) (h : y.step owner d ok = some (d', y')) :
    d' = d ∧ (∀ result, y.pc ≠ .returned result) ∧
      y'.pc = .returned (if ok then .fenced else .failed) := by
  have hsid := hy.sessionID
  cases moves_of_step h with
  | unanswered hpc => exact ⟨rfl, hpc, rfl⟩
  | fenced _ _ | lost _ => exact ⟨rfl, nofun, rfl⟩
  | read hread =>
    rw [hsid] at hread
    exact absurd (hread lease hlease).1 htaken
  | @stored _ _ current hequal =>
    rw [hsid, hlease] at hequal
    cases current with
    | none => cases hequal
    | some seen =>
      rw [← hy.current seen rfl] at htaken
      rw [clusterSessionLeaseEqual_of_owner_ne htaken] at hequal
      cases hequal

theorem Sync.step_of_lost (hy : y.Of sid owner version) (hlease : d.leases sid = some lease)
    (hlost : lease.owner ≠ owner) (h : y.step owner d ok = some (d', y')) :
    d' = d ∧ y'.Of sid owner version ∧
      (y'.pc = .returned .fenced ∨ y'.pc = .returned .failed) := by
  obtain ⟨hsame, -, hpc⟩ := Sync.step_of_taken hy.toBy hlease hlost h
  have hdesired : y'.desired = y.desired := by
    cases moves_of_step h <;> rfl
  refine ⟨hsame, ⟨hdesired ▸ hy.desired, ?_⟩, ?_⟩
  · rw [hpc]
    exact nofun
  · rw [hpc]
    cases ok
    · exact .inr rfl
    · exact .inl rfl

end Syncs

/-- Where `deleteClusterSessionState` is: before `GetSessionLease`, before each of its deletes. -/
inductive DeletePc where
  | get
  | lease
  | snapshot
  | returned
  deriving DecidableEq, Repr

/-- `ok` is false when the directory does not answer, `expired` says that the lease just read is
past its time. A lease that another node still holds ends the deletion. -/
def DeletePc.step (self : NodeIdentity) (sid : String) (d : Directory) (pc : DeletePc)
    (ok expired : Bool) : Option (Directory × DeletePc) :=
  match pc with
  | .get =>
    if sid ≠ "" ∧ ok then
      match d.leases sid with
      | none => some (d, .lease)
      | some current =>
        if ¬ expired ∧ (current.owner.nodeID ≠ "" ∨ current.owner.incarnationID ≠ "") ∧
            current.owner ≠ self then
          some (d, .returned)
        else some (d, .lease)
    else some (d, .returned)
  | .lease =>
    if ok then some (d.deleteSessionLeaseIfOwner sid self, .snapshot) else some (d, .returned)
  | .snapshot => some (if ok then d.deleteSessionSnapshot sid else d, .returned)
  | .returned => none

theorem DeletePc.step_cases {self : NodeIdentity} {sid : String} {d d' : Directory}
    {pc pc' : DeletePc} {ok expired : Bool} (h : pc.step self sid d ok expired = some (d', pc')) :
    (∀ lease, d.leases sid = some lease → lease.owner ≠ self → d'.leases sid = some lease) ∧
      (d'.snapshots = d.snapshots ∨ pc = .snapshot ∧ ok = true) := by
  cases pc with
  | get =>
    have hsame : d' = d := by
      simp only [DeletePc.step] at h
      repeat' split at h
      all_goals cases h; rfl
    rw [hsame]
    exact ⟨fun _ hlease _ => hlease, .inl rfl⟩
  | lease =>
    cases ok with
    | false =>
      cases h
      exact ⟨fun _ hlease _ => hlease, .inl rfl⟩
    | true =>
      cases h
      unfold deleteSessionLeaseIfOwner
      refine ⟨?_, ?_⟩
      · intro lease hlease hother
        split_ifs with _ howner
        · exact hlease
        · rw [hlease] at howner
          exact absurd (Option.some.inj howner) hother
        · exact hlease
      · left
        split_ifs <;> rfl
  | snapshot =>
    cases h
    cases ok with
    | false => exact ⟨fun _ hlease _ => hlease, .inl rfl⟩
    | true =>
      refine ⟨?_, .inr ⟨rfl, rfl⟩⟩
      intro lease hlease _
      simp only [if_true, deleteSessionSnapshot]
      split_ifs <;> exact hlease
  | returned => cases h

end MessageLoop
