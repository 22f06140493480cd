import MessageLoop.Lib.Transition
import MessageLoop.Cluster.Directory
import MessageLoop.Runtime.Fence
import MessageLoop.Runtime.SubscriptionCalls

/-!
Resume of a session on another node: `resumeRemoteSession` on the claiming node
(`internal/runtime/cluster_resume.go`), the takeover command and its handler on the owner
(`cluster_commands.go`), and what the owner does with the session meanwhile: subscription calls,
lease refreshes, `Fence`. Directory operations are single steps and everything interleaves.
-/

namespace MessageLoop

open Option

/-- Decimal epochs in canonical form; other incarnation IDs are not epochs. -/
def parseNodeEpoch (incarnationID : String) : Option Nat :=
  match incarnationID.toNat? with
  | some epoch =>
    if epoch ≠ 0 ∧ epoch < 2 ^ 64 ∧ toString epoch = incarnationID then some epoch else none
  | none => none

def nodeEpochNewer (a b : String) : Bool :=
  match parseNodeEpoch a, parseNodeEpoch b with
  | some epochA, some epochB => epochB < epochA
  | _, _ => false

namespace SubCall

def atSync (c : SubCall) : Bool :=
  match c.pc with
  | .commit .session | .rollback _ .session => true
  | _ => false

def synced (c : SubCall) (ok : Bool) : SubCall :=
  match c.pc with
  | .commit _ => if ok then c.goto (.commit .channel) else c.unwind .session .session
  | .rollback failed _ => c.unwind failed .session
  | _ => c

end SubCall

namespace Resume

/-- The owner and the claiming node, the session and its object on the owner, and what the
resuming connection has authenticated as. -/
structure Config where
  owner : NodeIdentity
  claimant : NodeIdentity
  sessionID : String
  session : SessionRef
  authUser : String
  authNs : String

/-- A subscription call on the owner with its sync, if it is in one. -/
structure OwnerCall where
  call : SubCall
  sync : Option Sync

def holdsLock (c : OwnerCall) (ch : String) : Prop :=
  c.call.holds ∧ c.call.channel = ch

def OwnerCall.afterSync (c : OwnerCall) (y : Sync) : OwnerCall :=
  match y.pc with
  | .returned result => ⟨c.call.synced (result = .ok), none⟩
  | _ => ⟨c.call, some y⟩

inductive Command where
  | none
  | pending (leaseVersion : Nat)
  | handling
  | replied (succeeded : Bool)
  deriving DecidableEq, Repr

inductive ResumeResult where
  | notFound
  | error
  | resumed (snapshot : SessionSnapshot)

/-- The next operation of `resumeRemoteSession`, with what it has read and written. -/
inductive Phase where
  | getLease
  | getSnapshot (lease : SessionLease)
  | claim (lease : SessionLease) (snapshot : SessionSnapshot)
  | request (lease desired : SessionLease) (snapshot : SessionSnapshot)
  | wait (lease desired : SessionLease) (snapshot : SessionSnapshot)
  | getNodeLease (lease desired : SessionLease) (snapshot : SessionSnapshot)
  | rollback (lease desired : SessionLease)
  | returned (result : ResumeResult)

/-- `acked` holds the channels whose subscription the owner has acknowledged and whose
unsubscription it has not; `fenced` keeps them as they were when `Fence` first closed the
session. A fence in progress remembers whether it answers the command. -/
structure State where
  node : Node
  calls : List OwnerCall
  refreshes : List Sync
  fence : Option (Fencing × Bool)
  directory : Directory
  command : Command
  phase : Phase
  acked : Finset String
  fenced : Option (Finset String)

/-- `channels` is the order in which `Fence` happens to range over the tracked set. -/
inductive Action where
  | add (ch : String) (ephemeral : Bool)
  | remove (ch : String)
  | call (k : Nat) (ok : Bool)
  | refresh
  | sync (k : Nat) (ok : Bool)
  | selfFence (k : Nat) (channels : List String)
  | handle (channels : List String)
  | fence (ok adjusted : Bool)
  | resume (ok : Bool)
  | reply
  | giveUp
  | nodeLease (alive : Option Bool)
  deriving DecidableEq, Repr

def acknowledge (acked : Finset String) (c : SubCall) : Finset String :=
  match c.op, c.pc with
  | .add _, .returned .ok => insert c.channel acked
  | .remove, .returned .ok => acked.erase c.channel
  | _, _ => acked

def State.spawn (s : State) (c : SubCall) : State :=
  { s with calls := s.calls ++ [⟨c, none⟩] }

section Owner
variable (cfg : Config)

def callStep (s : State) (k : Nat) (ok : Bool) : Option State :=
  s.calls[k]?.bind fun c =>
    match c.sync with
    | some y => (y.step cfg.owner s.directory ok).map fun r =>
        { s with directory := r.1, calls := s.calls.set k (c.afterSync r.2) }
    | none =>
      if c.call.atSync ∧ s.node.clusterEnabled then
        some { s with
          calls := s.calls.set k ⟨c.call, some (s.node.beginSync cfg.owner cfg.session)⟩ }
      else if Calls.blocked ⟨s.node, s.calls.map OwnerCall.call⟩ c.call then none
      else (c.call.step s.node ok).map fun r =>
        { s with
          node := r.1
          calls := s.calls.set k ⟨r.2, none⟩
          acked := acknowledge s.acked r.2 }

def syncStep (s : State) (k : Nat) (ok : Bool) : Option State :=
  s.refreshes[k]?.bind fun y =>
    (y.step cfg.owner s.directory ok).map fun r =>
      { s with directory := r.1, refreshes := s.refreshes.set k r.2 }

def beginFence (s : State) (c : SessionRef) (channels : List String) (forCommand : Bool) :
    Option State :=
  if (s.node.sessions c).state = .closed then
    some { s with command := if forCommand then .replied true else s.command }
  else if channels.Nodup ∧ channels.toFinset = s.node.tracked c then
    some { s with
      node := (Fencing.start s.node c channels).1
      fence := some ((Fencing.start s.node c channels).2, forCommand)
      command := if forCommand then .handling else s.command
      fenced := s.fenced.or (some s.acked) }
  else none

def handle (s : State) (channels : List String) : Option State :=
  match s.command with
  | .pending leaseVersion =>
    match s.node.hub.lookupSession cfg.sessionID with
    | none => some { s with command := .replied true }
    | some c =>
      if 0 < leaseVersion ∧ (s.node.sessions c).leaseVersion ≠ leaseVersion then
        some { s with command := .replied false }
      else beginFence s c channels true
  | _ => none

def fenceStep (s : State) (ok adjusted : Bool) : Option State :=
  s.fence.bind fun (f, forCommand) =>
    if ∃ c ∈ s.calls, c.call.holds ∧ f.channel = some c.call.channel then none
    else
      match f.step s.node ok adjusted with
      | (n, .inl f) => some { s with node := n, fence := some (f, forCommand) }
      | (n, .inr succeeded) => some { s with
          node := n
          fence := none
          command := if forCommand then .replied succeeded else s.command }

end Owner

section Claimant
variable (cfg : Config)

def denied (lease : SessionLease) : Bool :=
  (cfg.authUser ≠ "" ∧ lease.userID ≠ "" ∧ cfg.authUser ≠ lease.userID) ∨
    (cfg.authNs ≠ "" ∧ lease.ns ≠ "" ∧ cfg.authNs ≠ lease.ns)

def desiredLease (lease : SessionLease) : SessionLease :=
  { lease with
    owner := cfg.claimant
    ns := if lease.ns = "" then cfg.authNs else lease.ns
    leaseVersion := lease.leaseVersion + 1 }

/-- The recorded owner has to be asked: it is another process, and not an older generation of
this node. -/
def needsTakeover (lease : SessionLease) : Bool :=
  lease.owner.nodeID ≠ "" ∧ lease.owner.incarnationID ≠ "" ∧ lease.owner ≠ cfg.claimant ∧
    ¬ (lease.owner.nodeID = cfg.claimant.nodeID ∧
      nodeEpochNewer cfg.claimant.incarnationID lease.owner.incarnationID)

/-- The next operation of `resumeRemoteSession`; `ok` is false when the directory or the command
bus does not answer. -/
def resumeStep (s : State) (ok : Bool) : Option State :=
  match s.phase with
  | .getLease =>
    if ok then
      match s.directory.leases cfg.sessionID with
      | none => some { s with phase := .returned .notFound }
      | some lease =>
        if denied cfg lease then some { s with phase := .returned .error }
        else some { s with phase := .getSnapshot lease }
    else some { s with phase := .returned .error }
  | .getSnapshot lease =>
    if ok then
      match s.directory.snapshots cfg.sessionID with
      | none => some { s with phase := .returned .notFound }
      | some snapshot => some { s with phase := .claim lease snapshot }
    else some { s with phase := .returned .error }
  | .claim lease snapshot =>
    if ok then
      match s.directory.compareAndSwapSessionLease (some lease) (desiredLease cfg lease) with
      | none => some { s with phase := .returned .error }
      | some d => some { s with
          directory := d
          phase := if needsTakeover cfg lease then .request lease (desiredLease cfg lease) snapshot
            else .returned (.resumed snapshot) }
    else some { s with phase := .returned .error }
  | .request lease desired snapshot =>
    if ok then some { s with
        command := .pending lease.leaseVersion
        phase := .wait lease desired snapshot }
    else some { s with phase := .getNodeLease lease desired snapshot }
  | .rollback lease desired =>
    some { s with
      directory :=
        if ok then (s.directory.compareAndSwapSessionLease (some desired) lease).getD s.directory
        else s.directory
      phase := .returned .error }
  | _ => none

def reply (s : State) : Option State :=
  match s.phase, s.command with
  | .wait lease desired snapshot, .replied succeeded =>
    some { s with phase :=
      if succeeded then .returned (.resumed snapshot) else .getNodeLease lease desired snapshot }
  | _, _ => none

/-- The wait ends without a result of the handler: the deadline of the sender or of the handler
has passed. The command stays where it is. -/
def giveUp (s : State) : Option State :=
  match s.phase with
  | .wait lease desired snapshot => some { s with phase := .getNodeLease lease desired snapshot }
  | _ => none

/-- After a failed takeover: a node without lease counts as dead, and the resume goes on. -/
def nodeLease (s : State) (alive : Option Bool) : Option State :=
  match s.phase with
  | .getNodeLease lease desired snapshot =>
    some { s with phase :=
      if alive = some false then .returned (.resumed snapshot) else .rollback lease desired }
  | _ => none

end Claimant

def step (cfg : Config) (s : State) : Action → Option State
  | .add ch ephemeral => some (s.spawn (.add cfg.session ch ephemeral))
  | .remove ch => some (s.spawn (.remove cfg.session ch))
  | .call k ok => callStep cfg s k ok
  | .refresh =>
    if s.node.clusterEnabled then
      some { s with refreshes := s.refreshes ++ [s.node.beginSync cfg.owner cfg.session] }
    else none
  | .sync k ok => syncStep cfg s k ok
  | .selfFence k channels =>
    s.refreshes[k]?.bind fun y =>
      if y.pc = .returned .fenced then
        beginFence { s with refreshes := s.refreshes.eraseIdx k } cfg.session channels false
      else none
  | .handle channels => handle cfg s channels
  | .fence ok adjusted => fenceStep s ok adjusted
  | .resume ok => resumeStep cfg s ok
  | .reply => reply s
  | .giveUp => giveUp s
  | .nodeLease alive => nodeLease s alive

abbrev run (cfg : Config) : State → List Action → Option State :=
  Transition.run (step cfg)

section Steps
variable {cfg : Config} {s s' : State} {a : Action} {k : Nat} {ok adjusted forCommand : Bool}
variable {c : SessionRef} {channels : List String}

theorem OwnerCall.step_cases {σ : Type} {calls : List OwnerCall} {n : Node} {d : Directory}
    {who : NodeIdentity} {begins : OwnerCall → σ} {go : OwnerCall → Node × SubCall → σ}
    {goSync : OwnerCall → Directory × Sync → σ} {t : σ} (h : (calls[k]?.bind fun c =>
      match c.sync with
      | some y => (y.step who d ok).map (goSync c)
      | none =>
        if c.call.atSync ∧ n.clusterEnabled then some (begins c)
        else if Calls.blocked ⟨n, calls.map OwnerCall.call⟩ c.call then none
        else (c.call.step n ok).map (go c)) = some t) :
    ∃ c, calls[k]? = some c ∧
      ((∃ y r, c.sync = some y ∧ y.step who d ok = some r ∧ t = goSync c r) ∨
        (c.sync = none ∧ c.call.atSync ∧ t = begins c) ∨
        (c.sync = none ∧ ¬ (c.call.atSync ∧ n.clusterEnabled) ∧
          ¬ Calls.blocked ⟨n, calls.map OwnerCall.call⟩ c.call ∧
          ∃ r, c.call.step n ok = some r ∧ t = go c r)) := by
  obtain ⟨c, hc, h⟩ := bind_eq_some_iff.mp h
  refine ⟨c, hc, ?_⟩
  cases hsync : c.sync with
  | some y =>
    simp only [hsync] at h
    obtain ⟨r, hr, rfl⟩ := map_eq_some_iff.mp h
    exact .inl ⟨y, r, rfl, hr, rfl⟩
  | none =>
    simp only [hsync] at h
    right
    split_ifs at h with hat hblocked
    · cases h
      exact .inl ⟨rfl, hat.1, rfl⟩
    · obtain ⟨r, hr, rfl⟩ := map_eq_some_iff.mp h
      exact .inr ⟨rfl, hat, hblocked, r, hr, rfl⟩

theorem beginFence_cases (h : beginFence s c channels forCommand = some s') :
    ((s.node.sessions c).state = .closed ∧
        s' = { s with command := if forCommand then .replied true else s.command }) ∨
      ((s.node.sessions c).state ≠ .closed ∧ channels.Nodup ∧
        channels.toFinset = s.node.tracked c ∧
        s' = { s with
          node := (Fencing.start s.node c channels).1
          fence := some ((Fencing.start s.node c channels).2, forCommand)
          command := if forCommand then .handling else s.command
          fenced := s.fenced.or (some s.acked) }) := by
  unfold beginFence at h
  split at h
  case isTrue hclosed => exact .inl ⟨hclosed, (some.inj h).symm⟩
  case isFalse hopened =>
    split at h
    case isTrue hchannels => exact .inr ⟨hopened, hchannels.1, hchannels.2, (some.inj h).symm⟩
    case isFalse => cases h

theorem selfFence_cases (h : step cfg s (.selfFence k channels) = some s') :
    ∃ y, s.refreshes[k]? = some y ∧ y.pc = .returned .fenced ∧
      beginFence { s with refreshes := s.refreshes.eraseIdx k } cfg.session channels false =
        some s' := by
  obtain ⟨y, hy, h⟩ := bind_eq_some_iff.mp h
  split_ifs at h with hpc
  exact ⟨y, hy, hpc, h⟩

theorem handle_cases (h : handle cfg s channels = some s') :
    ∃ version, s.command = .pending version ∧
      ((∃ succeeded, s' = { s with command := .replied succeeded }) ∨
        ∃ c, s.node.hub.lookupSession cfg.sessionID = some c ∧
          beginFence s c channels true = some s') := by
  unfold handle at h
  split at h
  case h_1 version hcommand =>
    refine ⟨version, hcommand, ?_⟩
    split at h
    case h_1 => exact .inl ⟨_, (some.inj h).symm⟩
    case h_2 c hlookup =>
      split_ifs at h
      · exact .inl ⟨_, (some.inj h).symm⟩
      · exact .inr ⟨c, hlookup, h⟩
  case h_2 => cases h

theorem fenceStep_cases (h : fenceStep s ok adjusted = some s') :
    ∃ f forCommand, s.fence = some (f, forCommand) ∧
      ((∃ n f', f.step s.node ok adjusted = (n, .inl f') ∧
          s' = { s with node := n, fence := some (f', forCommand) }) ∨
        ∃ n succeeded, f.step s.node ok adjusted = (n, .inr succeeded) ∧
          s' = { s with
            node := n
            fence := none
            command := if forCommand then .replied succeeded else s.command }) := by
  unfold fenceStep at h
  obtain ⟨⟨f, forCommand⟩, hf, h⟩ := bind_eq_some_iff.mp h
  refine ⟨f, forCommand, hf, ?_⟩
  dsimp only at h
  split at h
  · cases h
  rcases hstep : f.step s.node ok adjusted with ⟨n, f' | succeeded⟩
  · rw [hstep] at h
    exact .inl ⟨n, f', rfl, (some.inj h).symm⟩
  · rw [hstep] at h
    exact .inr ⟨n, succeeded, rfl, (some.inj h).symm⟩

def Action.ofClaimant : Action → Bool
  | .resume _ | .reply | .giveUp | .nodeLease _ => true
  | _ => false

def Phase.early : Phase → Bool
  | .getLease | .getSnapshot _ | .claim _ _ => true
  | _ => false

/-- What an action of the claiming node makes of the directory, the command and the phase. -/
inductive Claims (cfg : Config) (d : Directory) (command : Command) :
    Action → Phase → Directory → Command → Phase → Prop
  | stops {ok phase result} (early : phase.early) (lost : result = .notFound ∨ result = .error) :
      Claims cfg d command (.resume ok) phase d command (.returned result)
  | leased {ok lease} (found : d.leases cfg.sessionID = some lease) :
      Claims cfg d command (.resume ok) .getLease d command (.getSnapshot lease)
  | read {ok lease snapshot} (found : d.snapshots cfg.sessionID = some snapshot) :
      Claims cfg d command (.resume ok) (.getSnapshot lease) d command (.claim lease snapshot)
  | claimed {ok lease snapshot d'}
      (swapped : d.compareAndSwapSessionLease (some lease) (desiredLease cfg lease) = some d') :
      Claims cfg d command (.resume ok) (.claim lease snapshot) d' command
        (if needsTakeover cfg lease then .request lease (desiredLease cfg lease) snapshot
          else .returned (.resumed snapshot))
  | requested {ok lease desired snapshot} :
      Claims cfg d command (.resume ok) (.request lease desired snapshot) d
        (.pending lease.leaseVersion) (.wait lease desired snapshot)
  | unsent {ok lease desired snapshot} :
      Claims cfg d command (.resume ok) (.request lease desired snapshot) d command
        (.getNodeLease lease desired snapshot)
  | replied {lease desired snapshot} (succeeded : Bool) :
      Claims cfg d command .reply (.wait lease desired snapshot) d command
        (if succeeded then .returned (.resumed snapshot) else .getNodeLease lease desired snapshot)
  | gaveUp {lease desired snapshot} :
      Claims cfg d command .giveUp (.wait lease desired snapshot) d command
        (.getNodeLease lease desired snapshot)
  | checked {alive lease desired snapshot} :
      Claims cfg d command (.nodeLease alive) (.getNodeLease lease desired snapshot) d command
        (if alive = some false then .returned (.resumed snapshot) else .rollback lease desired)
  | rolledBack {ok lease desired} :
      Claims cfg d command (.resume ok) (.rollback lease desired)
        (if ok then (d.compareAndSwapSessionLease (some desired) lease).getD d else d) command
        (.returned .error)

theorem claims_of_resumeStep (h : resumeStep cfg s ok = some s') :
    ∃ d command phase, s' = { s with directory := d, command := command, phase := phase } ∧
      Claims cfg s.directory s.command (.resume ok) s.phase d command phase := by
  obtain ⟨node, calls, refreshes, fence, d, command, phase, acked, fenced⟩ := s
  cases phase with
  | getLease =>
    simp only [resumeStep] at h
    repeat' split at h
    all_goals cases h
    · exact ⟨_, _, _, rfl, .stops rfl (.inl rfl)⟩
    · exact ⟨_, _, _, rfl, .stops rfl (.inr rfl)⟩
    · exact ⟨_, _, _, rfl, .leased ‹_›⟩
    · exact ⟨_, _, _, rfl, .stops rfl (.inr rfl)⟩
  | getSnapshot lease =>
    simp only [resumeStep] at h
    repeat' split at h
    all_goals cases h
    · exact ⟨_, _, _, rfl, .stops rfl (.inl rfl)⟩
    · exact ⟨_, _, _, rfl, .read ‹_›⟩
    · exact ⟨_, _, _, rfl, .stops rfl (.inr rfl)⟩
  | claim lease snapshot =>
    simp only [resumeStep] at h
    split at h
    · split at h <;> cases h
      · exact ⟨_, _, _, rfl, .stops rfl (.inr rfl)⟩
      · exact ⟨_, _, _, rfl, .claimed ‹_›⟩
    · cases h
      exact ⟨_, _, _, rfl, .stops rfl (.inr rfl)⟩
  | request lease desired snapshot =>
    simp only [resumeStep] at h
    split at h <;> cases h
    · exact ⟨_, _, _, rfl, .requested⟩
    · exact ⟨_, _, _, rfl, .unsent⟩
  | rollback lease desired =>
    cases h
    exact ⟨_, _, _, rfl, .rolledBack⟩
  | _ => cases h

theorem claimant_cases (ha : a.ofClaimant) (h : step cfg s a = some s') :
    ∃ d command phase, s' = { s with directory := d, command := command, phase := phase } ∧
      Claims cfg s.directory s.command a s.phase d command phase := by
  cases a with
  | resume ok => exact claims_of_resumeStep h
  | reply =>
    simp only [step, reply] at h
    split at h <;> cases h
    rename_i hphase _
    exact ⟨_, _, _, rfl, hphase ▸ .replied _⟩
  | giveUp =>
    simp only [step, giveUp] at h
    split at h <;> cases h
    rename_i hphase
    exact ⟨_, _, _, rfl, hphase ▸ .gaveUp⟩
  | nodeLease alive =>
    simp only [step, nodeLease] at h
    split at h <;> cases h
    rename_i hphase
    exact ⟨_, _, _, rfl, hphase ▸ .checked⟩
  | _ => cases ha

def Keeps (s s' : State) : Prop :=
  s'.phase = s.phase ∧ ∀ channels, s.fenced = some channels → s'.fenced = some channels

theorem keeps_of_eq (hphase : s'.phase = s.phase) (hfenced : s'.fenced = s.fenced) : Keeps s s' :=
  ⟨hphase, fun _ h => hfenced.trans h⟩

theorem keeps_beginFence (h : beginFence s c channels forCommand = some s') : Keeps s s' := by
  rcases beginFence_cases h with ⟨-, rfl⟩ | ⟨-, -, -, rfl⟩
  · exact keeps_of_eq rfl rfl
  · refine ⟨rfl, fun channels hfenced => ?_⟩
    simp [hfenced]

theorem keeps_owner (ha : a.ofClaimant = false) (h : step cfg s a = some s') : Keeps s s' := by
  cases a with
  | add ch e | remove ch =>
    cases h
    exact keeps_of_eq rfl rfl
  | call k ok =>
    obtain ⟨c, -, ⟨y, r, -, -, rfl⟩ | ⟨-, -, rfl⟩ | ⟨-, -, -, r, -, rfl⟩⟩ := OwnerCall.step_cases h <;>
      exact keeps_of_eq rfl rfl
  | refresh =>
    simp only [step] at h
    split_ifs at h
    cases h
    exact keeps_of_eq rfl rfl
  | sync k ok =>
    obtain ⟨y, r, -, -, rfl⟩ := bind_map_eq_some h
    exact keeps_of_eq rfl rfl
  | selfFence k channels =>
    obtain ⟨y, -, -, h⟩ := selfFence_cases h
    exact (keeps_beginFence h :)
  | handle channels =>
    obtain ⟨version, -, ⟨succeeded, rfl⟩ | ⟨c, -, h⟩⟩ := handle_cases h
    · exact keeps_of_eq rfl rfl
    · exact keeps_beginFence h
  | fence ok adjusted =>
    obtain ⟨f, forCommand, -, ⟨n, f', -, rfl⟩ | ⟨n, succeeded, -, rfl⟩⟩ := fenceStep_cases h <;>
      exact keeps_of_eq rfl rfl
  | _ => cases ha

end Steps

/-- The owner serves the session and the directory says so; the resume has not begun. -/
structure Served (cfg : Config) (s : State) : Prop where
  distinct : cfg.owner ≠ cfg.claimant
  named : cfg.sessionID ≠ ""
  enabled : s.node.clusterEnabled
  sessionID : s.node.sessionID cfg.session = cfg.sessionID
  opened : (s.node.sessions cfg.session).state ≠ .closed
  registered : s.node.hub.lookupSession cfg.sessionID = some cfg.session
  lease : ∃ lease, s.directory.leases cfg.sessionID = some lease ∧
    lease.sessionID = cfg.sessionID ∧ lease.owner = cfg.owner ∧
    lease.leaseVersion = (s.node.sessions cfg.session).leaseVersion
  idle : s.calls = [] ∧ s.refreshes = [] ∧ s.fence = none ∧ s.command = .none ∧
    s.phase = .getLease ∧ s.fenced = none

end Resume

end MessageLoop
