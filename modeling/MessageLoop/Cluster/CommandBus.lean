import MessageLoop.Cluster.Directory
import MessageLoop.Cluster.Envelope
import MessageLoop.Lib.Locks
import MessageLoop.Lib.Transition

/-!
The cluster command bus (`pkg/redisbroker/cluster_command_bus.go`) under an adversary who owns the
command streams and the reply channels.

The adversary decides which envelope a node reads from its inbox stream and which one a waiting
sender reads from its reply channel, at every moment. It may repeat, move, change and make up
envelopes, but none that verifies over bytes no key holder has signed. The state keys, by which a
command is executed once, are out of its reach; they may expire at any time. Clocks, failing Redis
commands and what the handlers find on their node are choices of the environment.
-/

namespace MessageLoop.CommandBus

open Envelope List Option Function

def statusPending : String := "pending"
def statusSucceeded : String := "succeeded"
def statusFailed : String := "failed"
def statusInProgress : String := "in_progress"
def statusUnknownFinalState : String := "unknown_final_state"

def commandTakeover : String := "takeover"

def otherCommands : List String :=
  ["publish", "disconnect", "subscribe", "unsubscribe", "survey"]

def clusterCommandReplyKey : String := "reply_channel"
def clusterCommandReplyPrefix : String := "ml2:cluster:cmd:reply:"
def clusterCommandMetaNewNodeID : String := "new_node_id"
def clusterCommandMetaNewIncarnationID : String := "new_incarnation_id"

section Handler

/-- A session that the hub finds: its lease version, and the error of fencing it. -/
structure Hosted where
  leaseVersion : Nat
  fenceError : Option String
  deriving DecidableEq

def Hosted.currentLeaseVersion (client : Hosted) : Nat :=
  if client.leaseVersion = 0 then 1 else client.leaseVersion

structure Answer where
  status : String
  errorCode : String
  errorMessage : String
  metadata : Metadata
  deriving DecidableEq

def newResult (n : NodeIdentity) (cmd : ClusterCommand) (status errorCode errorMessage : String) :
    ClusterCommandResult :=
  { commandID := cmd.commandID, sessionID := cmd.sessionID, nodeID := n.nodeID
    incarnationID := n.incarnationID, status, errorCode, errorMessage, metadata := .empty
    issuedAt := zeroTime, signature := [] }

def handleClusterTakeoverCommand (cmd : ClusterCommand) (hosted : Option Hosted)
    (result : ClusterCommandResult) : ClusterCommandResult :=
  match hosted with
  | none => result
  | some client =>
    if 0 < cmd.leaseVersion ∧ client.currentLeaseVersion ≠ cmd.leaseVersion then
      { result with
        status := statusFailed
        errorCode := "LEASE_VERSION_MISMATCH"
        errorMessage := "cluster takeover lease version mismatch" }
    else
      match client.fenceError with
      | some err =>
        { result with
          status := statusFailed, errorCode := "SESSION_TAKEOVER_FAILED", errorMessage := err }
      | none => result

def handleClusterCommand (n : NodeIdentity) (cmd : ClusterCommand) (hosted : Option Hosted)
    (answer : Answer) : ClusterCommandResult :=
  let result := newResult n cmd statusSucceeded "" ""
  if cmd.type = commandTakeover then handleClusterTakeoverCommand cmd hosted result
  else if otherCommands.any (· = cmd.type) then
    { result with
      status := answer.status
      errorCode := answer.errorCode
      errorMessage := answer.errorMessage
      metadata := answer.metadata }
  else
    { result with
      status := statusFailed
      errorCode := "UNSUPPORTED_CLUSTER_COMMAND"
      errorMessage := "unsupported cluster command: " ++ cmd.type }

inductive Execution where
  | notConfigured
  | timedOut
  | failed (err : String)
  | handled (hosted : Option Hosted) (answer : Answer)
  deriving DecidableEq

def Execution.invoked : Execution → Bool
  | .notConfigured => false
  | _ => true

def handledResult (n : NodeIdentity) (cmd : ClusterCommand) : Execution → ClusterCommandResult
  | .notConfigured => newResult n cmd statusFailed "CLUSTER_COMMAND_HANDLER_NOT_CONFIGURED"
      "cluster command handler is not configured"
  | .timedOut => newResult n cmd statusFailed "CLUSTER_COMMAND_TIMEOUT"
      "cluster command handler exceeded its execution deadline"
  | .failed err => newResult n cmd statusFailed "CLUSTER_COMMAND_HANDLER_FAILED" err
  | .handled hosted answer => handleClusterCommand n cmd hosted answer

def completed (n : NodeIdentity) (cmd : ClusterCommand) (result : ClusterCommandResult) :
    ClusterCommandResult :=
  { result with
    commandID := if result.commandID = "" then cmd.commandID else result.commandID
    sessionID := if result.sessionID = "" then cmd.sessionID else result.sessionID
    nodeID := if result.nodeID = "" then n.nodeID else result.nodeID
    incarnationID := if result.incarnationID = "" then n.incarnationID else result.incarnationID
    status := if result.status = "" ∨ result.status = statusPending then statusSucceeded
      else result.status }

def inProgress (result : ClusterCommandResult) : ClusterCommandResult :=
  { result with
    status := statusInProgress
    errorCode := "COMMAND_IN_PROGRESS"
    errorMessage := "cluster command is already in progress" }

def reported (result : ClusterCommandResult) : ClusterCommandResult :=
  if result.status = statusPending then inProgress result else result

def unpersisted (result : ClusterCommandResult) (storeErr : String) : ClusterCommandResult :=
  { result with
    status := statusUnknownFinalState
    errorCode := "UNKNOWN_FINAL_STATE"
    errorMessage :=
      "cluster command completed but terminal result could not be persisted: " ++ storeErr }

end Handler

/-- Where `handleMessage` stands with a verified command: `claim` and `load` are made again if the
state key has expired in between. -/
inductive HandlePc where
  | claim (again : Bool)
  | load (again : Bool)
  | execute
  | store (result : ClusterCommandResult)
  | publish (result : ClusterCommandResult)
  | done
  deriving DecidableEq

structure HandleCall where
  node : NodeIdentity
  command : ClusterCommand
  pc : HandlePc
  deriving DecidableEq

inductive Reply where
  | error (err : String)
  | result (r : Option ClusterCommandResult)
  deriving DecidableEq

inductive SendPc where
  | resolve
  | alive
  | subscribe
  | enqueue
  | waiting
  | returned (reply : Reply)
  deriving DecidableEq

/-- A call of `SendCommand`, with the lease if it is for `requestSessionTakeover`. -/
structure SendCall where
  node : NodeIdentity
  lease : Option SessionLease
  cmd : ClusterCommand
  signed : Bool
  pc : SendPc
  deriving DecidableEq

/-- Redis: the error of the next command, if it fails, and whether the target has a live lease.
`text` is a fresh UUID for the reply channel. -/
structure SendEnv where
  err : Option String
  alive : Bool
  text : String
  deriving DecidableEq

inductive Reception where
  | reply (res : ClusterCommandResult) (now : Int)
  | malformed (err : String)
  | closed
  | timeout (err : Option String)
  deriving DecidableEq

structure HandleEnv where
  err : Option String
  execution : Execution
  now : Int
  deriving DecidableEq

inductive Action where
  | sendCommand (n : NodeIdentity) (cmd : ClusterCommand) (id : String) (now : Int)
  | requestSessionTakeover (n : NodeIdentity) (lease : SessionLease) (id : String) (now : Int)
  | send (k : Nat) (env : SendEnv)
  | receive (k : Nat) (reception : Reception)
  | deliver (n : NodeIdentity) (cmd : ClusterCommand) (now : Int)
  | handle (k : Nat) (env : HandleEnv)
  | expire (id : String)
  deriving DecidableEq

/-- `commands` and `results` are what key holders have signed, `states` the state keys, and
`executed` the invocations of handlers. -/
structure State where
  commands : List ClusterCommand
  results : List ClusterCommandResult
  states : String → Option ClusterCommandResult
  sends : List SendCall
  handles : List HandleCall
  executed : List (NodeIdentity × ClusterCommand)

def State.init : State := ⟨[], [], fun _ => none, [], [], []⟩

section Steps
variable (mac sha256 : Bytes → Bytes)

def State.signedBytes (s : State) : List Bytes :=
  s.commands.map (canonicalCommand sha256) ++ s.results.map canonicalResult

def State.unforged (s : State) (canonical signature : Bytes) : Bool :=
  !verify mac canonical signature || (s.signedBytes sha256).any (· = canonical)

def State.freshID (s : State) (id : String) : Bool :=
  id ≠ "" && s.sends.all (·.cmd.commandID ≠ id)

def stampedID (cmd : ClusterCommand) (id : String) : String :=
  if cmd.commandID = "" then id else cmd.commandID

def newSend (n : NodeIdentity) (lease : Option SessionLease) (cmd : ClusterCommand) (id : String)
    (now : Int) : SendCall :=
  if cmd.targetNodeID = "" ∨ cmd.targetIncarnationID = "" then
    ⟨n, lease, cmd, false, .returned (.result none)⟩
  else
    ⟨n, lease, { cmd with issuedBy := n.nodeID, commandID := stampedID cmd id, issuedAt := now },
      false, .resolve⟩

def State.beginSend (s : State) (n : NodeIdentity) (lease : Option SessionLease)
    (cmd : ClusterCommand) (id : String) (now : Int) : Option State :=
  if s.freshID (stampedID cmd id) then
    some { s with sends := s.sends ++ [newSend n lease cmd id now] }
  else none

def takeoverCommand (n : NodeIdentity) (lease : SessionLease) : ClusterCommand :=
  { commandID := "", type := commandTakeover, targetNodeID := lease.owner.nodeID
    targetIncarnationID := lease.owner.incarnationID, sessionID := lease.sessionID, channel := ""
    leaseVersion := lease.leaseVersion, issuedAt := zeroTime, issuedBy := "", payload := []
    metadata := (Metadata.empty.set clusterCommandMetaNewNodeID n.nodeID).set
      clusterCommandMetaNewIncarnationID n.incarnationID
    signature := [] }

def notAlive (cmd : ClusterCommand) : ClusterCommandResult :=
  newResult ⟨cmd.targetNodeID, cmd.targetIncarnationID⟩ cmd statusFailed "TARGET_NODE_NOT_ALIVE"
    "target node incarnation has no live lease"

def timedOut (cmd : ClusterCommand) : ClusterCommandResult :=
  newResult ⟨cmd.targetNodeID, cmd.targetIncarnationID⟩ cmd statusUnknownFinalState
    "UNKNOWN_FINAL_STATE" "cluster command timed out before a terminal result was observed"

/-- One step of a `SendCommand` before it waits: the call, and the command it signs. -/
def sendStep (s : State) (c : SendCall) (env : SendEnv) :
    Option (SendCall × List ClusterCommand) :=
  let fails (err : String) : SendCall := { c with pc := .returned (.error err) }
  match c.pc, env.err with
  | .resolve, some err => some (fails err, [])
  | .resolve, none =>
    match s.states c.cmd.commandID with
    | some r => some ({ c with pc := .returned (.result (some (reported r))) }, [])
    | none => some ({ c with pc := .alive }, [])
  | .alive, some err => some (fails err, [])
  | .alive, none =>
    if env.alive then some ({ c with pc := .subscribe }, [])
    else some ({ c with pc := .returned (.result (some (notAlive c.cmd))) }, [])
  | .subscribe, some err => some (fails err, [])
  | .subscribe, none =>
    let metadata := c.cmd.metadata.set clusterCommandReplyKey (clusterCommandReplyPrefix ++ env.text)
    some ({ c with cmd := { c.cmd with metadata }, pc := .enqueue }, [])
  | .enqueue, err =>
    let cmd := signCommand mac sha256 c.cmd
    let pc := match err with
      | some err => .returned (.error err)
      | none => .waiting
    some ({ c with cmd, signed := true, pc }, [cmd])
  | .waiting, _ => none
  | .returned _, _ => none

def waitForReply (s : State) (c : SendCall) (reception : Reception) : Option SendCall :=
  match c.pc, reception with
  | .waiting, .reply res now =>
    if s.unforged mac sha256 (canonicalResult res) res.signature then
      match verifyResult mac res now with
      | .error _ => some c
      | .ok _ =>
        if res.commandID = c.cmd.commandID then
          some { c with pc := .returned (.result (some res)) }
        else some c
    else none
  | .waiting, .malformed err => some { c with pc := .returned (.error err) }
  | .waiting, .closed =>
    some { c with pc := .returned (.error "cluster command reply channel closed") }
  | .waiting, .timeout (some err) => some { c with pc := .returned (.error err) }
  | .waiting, .timeout none =>
    match s.states c.cmd.commandID with
    | some r =>
      if r.status = statusPending then
        some { c with pc := .returned (.result (some (timedOut c.cmd))) }
      else some { c with pc := .returned (.result (some r)) }
    | none => some { c with pc := .returned (.result (some (timedOut c.cmd))) }
  | _, _ => none

def dedupeFailed (n : NodeIdentity) (cmd : ClusterCommand) (err : String) : ClusterCommandResult :=
  newResult n cmd statusFailed "CLUSTER_COMMAND_DEDUPE_FAILED" err

/-- `publishCommandResult`: the result that is signed and published, if the command names a reply
channel. -/
def publishCommandResult (cmd : ClusterCommand) (result : ClusterCommandResult) (now : Int) :
    List ClusterCommandResult :=
  if cmd.metadata.get clusterCommandReplyKey = "" then []
  else [signResult mac
    { result with issuedAt := if result.issuedAt = zeroTime then now else result.issuedAt }]

def handleStep (s : State) (h : HandleCall) (env : HandleEnv) : Option (State × HandlePc) :=
  let id := h.command.commandID
  match h.pc, env.err with
  | .claim _, some err => some (s, .publish (dedupeFailed h.node h.command err))
  | .claim again, none =>
    match s.states id with
    | none =>
      let pending := newResult h.node h.command statusPending "" ""
      some ({ s with states := Function.update s.states id (some pending) }, .execute)
    | some _ => some (s, .load again)
  | .load _, some err => some (s, .publish (dedupeFailed h.node h.command err))
  | .load again, none =>
    match s.states id, again with
    | some r, _ => some (s, .publish (reported r))
    | none, false => some (s, .claim true)
    | none, true => some (s, .publish (inProgress (newResult h.node h.command "" "" "")))
  | .execute, _ =>
    let result := completed h.node h.command (handledResult h.node h.command env.execution)
    let invocation := if env.execution.invoked then [(h.node, h.command)] else []
    some ({ s with executed := s.executed ++ invocation }, .store result)
  | .store result, some err => some (s, .publish (unpersisted result err))
  | .store result, none =>
    some ({ s with states := Function.update s.states result.commandID (some result) },
      .publish result)
  | .publish result, _ =>
    some ({ s with results := s.results ++ publishCommandResult mac h.command result env.now },
      .done)
  | .done, _ => none

def step (s : State) : Action → Option State
  | .sendCommand n cmd id now => s.beginSend n none cmd id now
  | .requestSessionTakeover n lease id now =>
    s.beginSend n (some lease) (takeoverCommand n lease) id now
  | .send k env =>
    s.sends[k]?.bind fun c => (sendStep mac sha256 s c env).map fun r =>
      { s with sends := s.sends.set k r.1, commands := s.commands ++ r.2 }
  | .receive k reception =>
    s.sends[k]?.bind fun c => (waitForReply mac sha256 s c reception).map fun d =>
      { s with sends := s.sends.set k d }
  | .deliver n cmd now =>
    if s.unforged mac sha256 (canonicalCommand sha256 cmd) cmd.signature then
      match verifyCommand mac sha256 cmd now with
      | .ok _ => some { s with handles := s.handles ++ [⟨n, cmd, .claim false⟩] }
      | .error _ => some s
    else none
  | .handle k env =>
    s.handles[k]?.bind fun h => (handleStep mac s h env).map fun r =>
      { r.1 with handles := s.handles.set k { h with pc := r.2 } }
  | .expire id => some { s with states := Function.update s.states id none }

abbrev run : State → List Action → Option State :=
  Transition.run (step mac sha256)

def target (cmd : ClusterCommand) : NodeIdentity :=
  ⟨cmd.targetNodeID, cmd.targetIncarnationID⟩

/-- A node reads no command that was signed for another node or incarnation. The node ID is not
among the signed bytes, so this is about the command as its sender signed it. -/
def OwnTarget (s : State) : Action → Prop
  | .deliver n cmd now => (verifyCommand mac sha256 cmd now).isOk →
      ∀ c ∈ s.commands, canonicalCommand sha256 c = canonicalCommand sha256 cmd → target c = n
  | _ => True

instance (s : State) : (a : Action) → Decidable (OwnTarget mac sha256 s a)
  | .deliver n cmd now => inferInstanceAs (Decidable ((verifyCommand mac sha256 cmd now).isOk = true →
      ∀ c ∈ s.commands, canonicalCommand sha256 c = canonicalCommand sha256 cmd → target c = n))
  | .sendCommand .. | .requestSessionTakeover .. | .send .. | .receive .. | .handle .. | .expire _ =>
    isTrue trivial

end Steps

def Positive (r : ClusterCommandResult) : Prop :=
  r.status = statusSucceeded ∨ r.errorCode = "SESSION_NOT_FOUND"

def SendCall.succeeded (c : SendCall) : Prop :=
  match c.pc with
  | .returned (.result none) => True
  | .returned (.result (some r)) => Positive r
  | _ => False

section Provenance
variable {mac sha256 : Bytes → Bytes} {s t : State}
variable {n : NodeIdentity} {cmd : ClusterCommand} {r : ClusterCommandResult} {c d : SendCall}
variable {now : Int} {k : Nat}

def State.SignedFor (s : State) (n : NodeIdentity) (cmd : ClusterCommand) : Prop :=
  ∃ c ∈ s.commands, c.signedFields = cmd.signedFields ∧ target c = n

/-- A success is only reported for a command that some handler was invoked for. -/
def State.Genuine (s : State) (r : ClusterCommandResult) : Prop :=
  Positive r → ∃ n cmd, (n, cmd) ∈ s.executed ∧ cmd.commandID = r.commandID

def HandlePc.result : HandlePc → Option ClusterCommandResult
  | .store r | .publish r => some r
  | _ => none

structure HandleSound (s : State) (h : HandleCall) : Prop where
  signed : s.SignedFor h.node h.command
  result : ∀ r, h.pc.result = some r → r.commandID = h.command.commandID ∧ s.Genuine r

def SendPc.early : SendPc → Bool
  | .waiting | .returned _ => false
  | _ => true

def SendPc.unsent : SendPc → Bool
  | .returned (.result none) => true
  | _ => false

def SendPc.result : SendPc → Option ClusterCommandResult
  | .returned (.result r) => r
  | _ => none

structure SendSound (s : State) (c : SendCall) : Prop where
  takeover : ∀ lease, c.lease = some lease → c.cmd.type = commandTakeover ∧
    c.cmd.sessionID = lease.sessionID ∧ c.cmd.targetNodeID = lease.owner.nodeID ∧
    c.cmd.targetIncarnationID = lease.owner.incarnationID
  signed : c.pc.early → c.signed = false
  identified : c.pc.unsent = false → c.cmd.commandID ≠ ""
  unsent : c.pc.unsent → c.cmd.targetNodeID = "" ∨ c.cmd.targetIncarnationID = ""
  result : ∀ r, c.pc.result = some r → r.commandID = c.cmd.commandID ∧ s.Genuine r

def SendCall.Identified (c : SendCall) (id : String) : Prop :=
  id ≠ "" ∧ c.cmd.commandID = id

structure Sound (s : State) : Prop where
  executed : ∀ n cmd, (n, cmd) ∈ s.executed → s.SignedFor n cmd
  handles : ∀ h ∈ s.handles, HandleSound s h
  states : ∀ id r, s.states id = some r → r.commandID = id ∧ s.Genuine r
  results : ∀ r ∈ s.results, s.Genuine r
  commands : ∀ c ∈ s.commands, ∃ d ∈ s.sends, d.signed ∧ d.cmd = c
  ids : Locks.Exclusive SendCall.Identified s.sends
  sends : ∀ c ∈ s.sends, SendSound s c

structure Grows (s t : State) : Prop where
  commands : s.commands ⊆ t.commands
  executed : s.executed ⊆ t.executed

theorem State.SignedFor.mono (h : s.SignedFor n cmd) (hgrows : Grows s t) : t.SignedFor n cmd := by
  obtain ⟨c, hc, hsigned⟩ := h
  exact ⟨c, hgrows.commands hc, hsigned⟩

theorem State.Genuine.mono (h : s.Genuine r) (hgrows : Grows s t) : t.Genuine r := by
  intro hpositive
  obtain ⟨n, cmd, hexecuted, hid⟩ := h hpositive
  exact ⟨n, cmd, hgrows.executed hexecuted, hid⟩

theorem HandleSound.mono {h : HandleCall} (hh : HandleSound s h) (hgrows : Grows s t) :
    HandleSound t h :=
  ⟨hh.signed.mono hgrows, fun r hr => ⟨(hh.result r hr).1, (hh.result r hr).2.mono hgrows⟩⟩

theorem SendSound.mono (hc : SendSound s c) (hgrows : Grows s t) : SendSound t c :=
  { hc with result := fun r hr => ⟨(hc.result r hr).1, (hc.result r hr).2.mono hgrows⟩ }

theorem genuine_of_not_positive (h : ¬ Positive r) : s.Genuine r :=
  fun hpositive => absurd hpositive h

theorem genuine_reported (h : s.Genuine r) : s.Genuine (reported r) := by
  unfold reported
  split_ifs
  · exact genuine_of_not_positive (by simp [Positive, inProgress, statusInProgress, statusSucceeded])
  · exact h

@[simp] theorem commandID_reported (r : ClusterCommandResult) :
    (reported r).commandID = r.commandID := by
  unfold reported inProgress
  split_ifs <;> rfl

theorem commandID_handleClusterTakeoverCommand (cmd : ClusterCommand) (hosted : Option Hosted)
    (result : ClusterCommandResult) :
    (handleClusterTakeoverCommand cmd hosted result).commandID = result.commandID := by
  cases hosted with
  | none => rfl
  | some client =>
    simp only [handleClusterTakeoverCommand]
    split_ifs
    · rfl
    · cases client.fenceError <;> rfl

theorem commandID_handleClusterCommand (n : NodeIdentity) (cmd : ClusterCommand)
    (hosted : Option Hosted) (answer : Answer) :
    (handleClusterCommand n cmd hosted answer).commandID = cmd.commandID := by
  unfold handleClusterCommand
  split_ifs
  · exact commandID_handleClusterTakeoverCommand cmd hosted _
  · rfl
  · rfl

theorem commandID_handledResult (n : NodeIdentity) (cmd : ClusterCommand) (x : Execution) :
    (handledResult n cmd x).commandID = cmd.commandID := by
  cases x with
  | handled hosted answer => exact commandID_handleClusterCommand n cmd hosted answer
  | _ => rfl

theorem commandID_completed (n : NodeIdentity) {result : ClusterCommandResult}
    (h : result.commandID = cmd.commandID) : (completed n cmd result).commandID = cmd.commandID := by
  simp only [completed]
  split_ifs
  · rfl
  · exact h

theorem not_positive_notConfigured (n : NodeIdentity) (cmd : ClusterCommand) :
    ¬ Positive (completed n cmd (handledResult n cmd .notConfigured)) := by
  simp [Positive, completed, handledResult, newResult, statusFailed, statusPending,
    statusSucceeded]

theorem mem_signedBytes_command (hsha : Function.Injective sha256)
    (h : s.unforged mac sha256 (canonicalCommand sha256 cmd) cmd.signature = true)
    (hverify : verify mac (canonicalCommand sha256 cmd) cmd.signature = true) :
    ∃ c ∈ s.commands, canonicalCommand sha256 c = canonicalCommand sha256 cmd ∧
      c.signedFields = cmd.signedFields := by
  have hmem : canonicalCommand sha256 cmd ∈ s.signedBytes sha256 := by
    simpa [State.unforged, hverify] using h
  rcases mem_append.mp hmem with hmem | hmem
  · obtain ⟨c, hc, hcanonical⟩ := mem_map.mp hmem
    exact ⟨c, hc, hcanonical, canonicalCommand_injective hsha hcanonical⟩
  · obtain ⟨r, -, hcanonical⟩ := mem_map.mp hmem
    exact absurd hcanonical.symm (canonicalCommand_ne_canonicalResult cmd r)

theorem mem_signedBytes_result {res : ClusterCommandResult}
    (h : s.unforged mac sha256 (canonicalResult res) res.signature = true)
    (hverify : verify mac (canonicalResult res) res.signature = true) :
    ∃ r ∈ s.results, r.signedFields = res.signedFields := by
  have hmem : canonicalResult res ∈ s.signedBytes sha256 := by
    simpa [State.unforged, hverify] using h
  rcases mem_append.mp hmem with hmem | hmem
  · obtain ⟨c, -, hcanonical⟩ := mem_map.mp hmem
    exact absurd hcanonical (canonicalCommand_ne_canonicalResult c res)
  · obtain ⟨r, hr, hcanonical⟩ := mem_map.mp hmem
    exact ⟨r, hr, canonicalResult_injective hcanonical⟩

theorem State.Genuine.of_signedFields {q : ClusterCommandResult} (h : s.Genuine r)
    (hfields : r.signedFields = q.signedFields) : s.Genuine q := by
  have hid := congrArg ClusterCommandResult.commandID hfields
  have hstatus := congrArg ClusterCommandResult.status hfields
  have hcode := congrArg ClusterCommandResult.errorCode hfields
  simp only [ClusterCommandResult.signedFields] at hid hstatus hcode
  intro hpositive
  obtain ⟨n, cmd, hexecuted, hcmd⟩ := h (by simpa [Positive, hstatus, hcode] using hpositive)
  exact ⟨n, cmd, hexecuted, hcmd.trans hid⟩

theorem verify_of_verifyCommand {u : Unit} (h : verifyCommand mac sha256 cmd now = .ok u) :
    verify mac (canonicalCommand sha256 cmd) cmd.signature = true := by
  unfold verifyCommand at h
  split_ifs at h with _ _ hverify
  · exact hverify
  · cases hskew : checkSkew cmd.issuedAt now <;> rw [hskew] at h <;> cases h

theorem verify_of_verifyResult {res : ClusterCommandResult} {u : Unit}
    (h : verifyResult mac res now = .ok u) :
    verify mac (canonicalResult res) res.signature = true := by
  unfold verifyResult at h
  split_ifs at h with _ hverify
  · exact hverify
  · cases hskew : checkSkew res.issuedAt now <;> rw [hskew] at h <;> cases h

theorem Sound.begin {lease : Option SessionLease} {id : String} (h : Sound s)
    (htakeover : ∀ l, lease = some l → cmd.type = commandTakeover ∧ cmd.sessionID = l.sessionID ∧
      cmd.targetNodeID = l.owner.nodeID ∧ cmd.targetIncarnationID = l.owner.incarnationID)
    (hbegin : s.beginSend n lease cmd id now = some t) : Sound t := by
  unfold State.beginSend at hbegin
  split_ifs at hbegin with hfresh
  cases hbegin
  obtain ⟨hne, hunused⟩ : stampedID cmd id ≠ "" ∧
      ∀ d ∈ s.sends, d.cmd.commandID ≠ stampedID cmd id := by
    simpa [State.freshID] using hfresh
  have hgrows : Grows s { s with sends := s.sends ++ [newSend n lease cmd id now] } :=
    ⟨fun _ hx => hx, fun _ hx => hx⟩
  have hid : ∀ i, (newSend n lease cmd id now).Identified i → i = stampedID cmd id := by
    rintro i ⟨hi, rfl⟩
    unfold newSend at hi ⊢
    split_ifs with htarget
    · rw [if_pos htarget] at hi
      exact (if_neg hi).symm
    · rfl
  refine { h with
    handles := fun g hg => (h.handles g hg).mono hgrows
    commands := ?_
    ids := ?_
    sends := ?_ }
  · intro x hx
    obtain ⟨d, hd, hsigned⟩ := h.commands x hx
    exact ⟨d, mem_append_left _ hd, hsigned⟩
  · refine h.ids.concat ?_
    rintro i hi d hd ⟨-, hdi⟩
    obtain rfl := hid i hi
    exact hunused d hd hdi
  · refine forall_mem_snoc (fun x hx => (h.sends x hx).mono hgrows) (SendSound.mono ?_ hgrows)
    unfold newSend
    split_ifs with htarget
    · exact
        { takeover := htakeover
          signed := nofun
          identified := nofun
          unsent := fun _ => htarget
          result := fun _ hr => by cases hr }
    · exact
        { takeover := htakeover
          signed := fun _ => rfl
          identified := fun _ => hne
          unsent := nofun
          result := fun _ hr => by cases hr }

theorem Sound.setSend {new : List ClusterCommand} (h : Sound s) (hk : s.sends[k]? = some c)
    (hid : d.cmd.commandID = c.cmd.commandID) (hkeep : c.signed → d.signed ∧ d.cmd = c.cmd)
    (hnew : ∀ x ∈ new, d.signed ∧ d.cmd = x) (hsound : SendSound s d) :
    Sound { s with sends := s.sends.set k d, commands := s.commands ++ new } := by
  have hgrows : Grows s { s with sends := s.sends.set k d, commands := s.commands ++ new } :=
    ⟨subset_append_left _ _, fun _ hx => hx⟩
  refine { h with
    executed := fun n cmd hx => (h.executed n cmd hx).mono hgrows
    handles := fun g hg => (h.handles g hg).mono hgrows
    commands := ?_
    ids := ?_
    sends := ?_ }
  · intro x hx
    rcases mem_append.mp hx with hx | hx
    · refine Locks.exists_mem_set hk ?_ (h.commands x hx)
      rintro ⟨hsigned, rfl⟩
      exact hkeep hsigned
    · exact ⟨d, Locks.mem_set_self hk, hnew x hx⟩
  · refine h.ids.set hk ?_
    rintro i ⟨hi, rfl⟩
    exact .inl ⟨hi, hid.symm⟩
  · exact forall_mem_set (fun x hx => (h.sends x hx).mono hgrows) (hsound.mono hgrows)

theorem SendSound.moved {p : SendPc} (hc : SendSound s c) (hsent : c.pc.unsent = false)
    (hearly : p.early → c.pc.early) (hp : p.unsent = false)
    (hresult : ∀ r, p.result = some r → r.commandID = c.cmd.commandID ∧ s.Genuine r) :
    SendSound s { c with pc := p } where
  takeover := hc.takeover
  signed := fun h => hc.signed (hearly h)
  identified := fun _ => hc.identified hsent
  unsent := fun hunsent => absurd (hp.symm.trans hunsent) Bool.false_ne_true
  result := hresult

theorem not_positive_notAlive (cmd : ClusterCommand) : ¬ Positive (notAlive cmd) := by
  simp [Positive, notAlive, newResult, statusFailed, statusSucceeded]

theorem not_positive_timedOut (cmd : ClusterCommand) : ¬ Positive (timedOut cmd) := by
  simp [Positive, timedOut, newResult, statusUnknownFinalState, statusSucceeded]

section
variable (h : Sound s)
include h

theorem Sound.sendMoves {p : SendPc} (hk : s.sends[k]? = some c) (hsent : c.pc.unsent = false)
    (hearly : p.early → c.pc.early) (hp : p.unsent = false)
    (hresult : ∀ r, p.result = some r → r.commandID = c.cmd.commandID ∧ s.Genuine r) :
    Sound { s with sends := s.sends.set k { c with pc := p } } := by
  have hc := (h.sends c (mem_of_getElem? hk)).moved hsent hearly hp hresult
  have hset : Sound { s with
      sends := s.sends.set k { c with pc := p }, commands := s.commands ++ [] } :=
    h.setSend hk rfl (fun hs => ⟨hs, rfl⟩) nofun hc
  rwa [append_nil] at hset

theorem Sound.send {env : SendEnv} {new : List ClusterCommand} (hk : s.sends[k]? = some c)
    (hstep : sendStep mac sha256 s c env = some (d, new)) :
    Sound { s with sends := s.sends.set k d, commands := s.commands ++ new } := by
  have hc := h.sends c (mem_of_getElem? hk)
  obtain ⟨node, lease, cmd, signed, pc⟩ := c
  obtain ⟨err, alive, text⟩ := env
  have moves : ∀ p : SendPc, pc.early → p.unsent = false →
      (∀ r, p.result = some r → r.commandID = cmd.commandID ∧ s.Genuine r) →
      Sound { s with
        sends := s.sends.set k ⟨node, lease, cmd, signed, p⟩, commands := s.commands ++ [] } := by
    intro p hearly hp hresult
    have hsent : pc.unsent = false := by cases pc <;> trivial
    rw [append_nil]
    exact h.sendMoves hk hsent (fun _ => hearly) hp hresult
  have quiet : ∀ p : SendPc, pc.early → p.unsent = false → p.result = none →
      Sound { s with
        sends := s.sends.set k ⟨node, lease, cmd, signed, p⟩, commands := s.commands ++ [] } := by
    intro p hearly hp hresult
    exact moves p hearly hp fun r hr => by rw [hresult] at hr; cases hr
  cases pc with
  | resolve =>
    cases err with
    | some err =>
      cases hstep
      exact quiet _ rfl rfl rfl
    | none =>
      simp only [sendStep] at hstep
      split at hstep
      · next r hstored =>
        cases hstep
        refine moves _ rfl rfl ?_
        rintro _ ⟨⟩
        obtain ⟨hid, hgenuine⟩ := h.states _ r hstored
        exact ⟨by rw [commandID_reported, hid], genuine_reported hgenuine⟩
      · cases hstep
        exact quiet _ rfl rfl rfl
  | alive =>
    cases err with
    | some err =>
      cases hstep
      exact quiet _ rfl rfl rfl
    | none =>
      simp only [sendStep] at hstep
      split_ifs at hstep
      · cases hstep
        exact quiet _ rfl rfl rfl
      · cases hstep
        refine moves _ rfl rfl ?_
        rintro _ ⟨⟩
        exact ⟨rfl, genuine_of_not_positive (not_positive_notAlive cmd)⟩
  | subscribe =>
    cases err with
    | some err =>
      cases hstep
      exact quiet _ rfl rfl rfl
    | none =>
      cases hstep
      -- The command is not signed yet, so its metadata may still change.
      have hsigned : signed = false := hc.signed rfl
      refine h.setSend hk rfl (fun hs => ?_) nofun
        { hc with }
      exact absurd (hsigned.symm.trans hs) Bool.false_ne_true
  | enqueue =>
    have hsigned : signed = false := hc.signed rfl
    have signs : ∀ p : SendPc, p.early = false → p.unsent = false → p.result = none →
        Sound { s with
          sends := s.sends.set k ⟨node, lease, signCommand mac sha256 cmd, true, p⟩
          commands := s.commands ++ [signCommand mac sha256 cmd] } := by
      intro p hearly hp hresult
      refine h.setSend hk rfl (fun hs => absurd (hsigned.symm.trans hs) Bool.false_ne_true)
        (fun x hx => ⟨rfl, (mem_singleton.mp hx).symm⟩) ?_
      exact
        { takeover := hc.takeover
          signed := fun he => absurd (hearly.symm.trans he) Bool.false_ne_true
          identified := fun _ => hc.identified rfl
          unsent := fun hu => absurd (hp.symm.trans hu) Bool.false_ne_true
          result := fun r hr => absurd (hresult.symm.trans hr) (by simp) }
    cases err with
    | some err | none =>
      cases hstep
      exact signs _ rfl rfl rfl
  | waiting | returned reply => cases hstep

theorem Sound.receive {reception : Reception} (hk : s.sends[k]? = some c)
    (hstep : waitForReply mac sha256 s c reception = some d) :
    Sound { s with sends := s.sends.set k d } := by
  obtain ⟨node, lease, cmd, signed, pc⟩ := c
  cases pc with
  | waiting =>
    have moves : ∀ p : SendPc, p.early = false → p.unsent = false → p.result = none →
        Sound { s with sends := s.sends.set k ⟨node, lease, cmd, signed, p⟩ } := by
      intro p hearly hp hresult
      exact h.sendMoves hk rfl (fun he => by cases hearly.symm.trans he) hp
        fun r hr => by cases hresult.symm.trans hr
    have returns : ∀ r : ClusterCommandResult, r.commandID = cmd.commandID → s.Genuine r →
        Sound { s with
          sends := s.sends.set k ⟨node, lease, cmd, signed, .returned (.result (some r))⟩ } := by
      intro r hid hgenuine
      refine h.sendMoves hk rfl nofun rfl ?_
      rintro _ ⟨⟩
      exact ⟨hid, hgenuine⟩
    have unknown := returns _ rfl (genuine_of_not_positive (not_positive_timedOut cmd))
    cases reception with
    | reply res now =>
      simp only [waitForReply] at hstep
      split at hstep
      · next hunforged =>
        split at hstep
        · cases hstep
          exact moves _ rfl rfl rfl
        · next u hverify =>
          split_ifs at hstep with hid
          · cases hstep
            have hmac := verify_of_verifyResult hverify
            obtain ⟨r, hr, hfields⟩ := mem_signedBytes_result hunforged hmac
            exact returns res hid ((h.results r hr).of_signedFields hfields)
          · cases hstep
            exact moves _ rfl rfl rfl
      · cases hstep
    | malformed _ | closed =>
      cases hstep
      exact moves _ rfl rfl rfl
    | timeout err =>
      cases err with
      | some err =>
        cases hstep
        exact moves _ rfl rfl rfl
      | none =>
        simp only [waitForReply] at hstep
        split at hstep
        · next r hstored =>
          split_ifs at hstep
          · cases hstep
            exact unknown
          · cases hstep
            obtain ⟨hid, hgenuine⟩ := h.states _ r hstored
            exact returns r hid hgenuine
        · cases hstep
          exact unknown
  | _ => cases reception <;> cases hstep

theorem Sound.grow (hgrows : Grows s t) (hcommands : t.commands = s.commands)
    (hsends : t.sends = s.sends) (hhandles : t.handles = s.handles)
    (hexecuted : ∀ n cmd, (n, cmd) ∈ t.executed → t.SignedFor n cmd)
    (hstates : ∀ id r, t.states id = some r → r.commandID = id ∧ t.Genuine r)
    (hresults : ∀ r ∈ t.results, t.Genuine r) : Sound t where
  executed := hexecuted
  handles := fun g hg => (h.handles g (hhandles ▸ hg)).mono hgrows
  states := hstates
  results := hresults
  commands := by
    rw [hcommands, hsends]
    exact h.commands
  ids := by
    rw [hsends]
    exact h.ids
  sends := fun c hc => (h.sends c (hsends ▸ hc)).mono hgrows

theorem Sound.putState {id : String} {stored : Option ClusterCommandResult}
    (hstored : ∀ r, stored = some r → r.commandID = id ∧ s.Genuine r) :
    Sound { s with states := update s.states id stored } := by
  have hgrows : Grows s { s with states := update s.states id stored } :=
    ⟨fun _ hx => hx, fun _ hx => hx⟩
  refine h.grow hgrows rfl rfl rfl h.executed ?_ h.results
  intro i r hr
  by_cases hi : i = id
  · subst hi
    exact hstored r (by simpa using hr)
  · exact h.states i r (by simpa [hi] using hr)

theorem Sound.execute {invocation : List (NodeIdentity × ClusterCommand)}
    (hsigned : ∀ n cmd, (n, cmd) ∈ invocation → s.SignedFor n cmd) :
    Sound { s with executed := s.executed ++ invocation } := by
  have hgrows : Grows s { s with executed := s.executed ++ invocation } :=
    ⟨fun _ hx => hx, subset_append_left _ _⟩
  refine h.grow hgrows rfl rfl rfl ?_ (fun id r hr => ⟨(h.states id r hr).1,
    (h.states id r hr).2.mono hgrows⟩) (fun r hr => (h.results r hr).mono hgrows)
  intro n cmd hx
  rcases mem_append.mp hx with hx | hx
  · exact h.executed n cmd hx
  · exact hsigned n cmd hx

theorem Sound.publish {new : List ClusterCommandResult}
    (hnew : ∀ r ∈ new, s.Genuine r) : Sound { s with results := s.results ++ new } := by
  have hgrows : Grows s { s with results := s.results ++ new } := ⟨fun _ hx => hx, fun _ hx => hx⟩
  exact h.grow hgrows rfl rfl rfl h.executed h.states (forall_mem_append.mpr ⟨h.results, hnew⟩)

theorem Sound.handleMoves {c : HandleCall} {p : HandlePc} (hk : s.handles[k]? = some c)
    (hresult : ∀ r, p.result = some r → r.commandID = c.command.commandID ∧ s.Genuine r) :
    Sound { s with handles := s.handles.set k { c with pc := p } } := by
  have hgrows : Grows s { s with handles := s.handles.set k { c with pc := p } } :=
    ⟨fun _ hx => hx, fun _ hx => hx⟩
  exact { h with
    handles := forall_mem_set (fun g hg => (h.handles g hg).mono hgrows)
      ⟨(h.handles c (mem_of_getElem? hk)).signed, hresult⟩
    sends := fun d hd => (h.sends d hd).mono hgrows }

theorem Sound.handle {c : HandleCall} {env : HandleEnv} {w : State} {p : HandlePc}
    (hk : s.handles[k]? = some c) (hstep : handleStep mac s c env = some (w, p)) :
    Sound { w with handles := s.handles.set k { c with pc := p } } := by
  have hc := h.handles c (mem_of_getElem? hk)
  obtain ⟨node, cmd, pc⟩ := c
  obtain ⟨err, execution, now⟩ := env
  have answers : ∀ r : ClusterCommandResult, r.commandID = cmd.commandID → s.Genuine r →
      Sound { s with handles := s.handles.set k ⟨node, cmd, .publish r⟩ } := by
    intro r hid hgenuine
    refine h.handleMoves hk ?_
    rintro _ ⟨⟩
    exact ⟨hid, hgenuine⟩
  have fails : ∀ err, Sound { s with
      handles := s.handles.set k ⟨node, cmd, .publish (dedupeFailed node cmd err)⟩ } := by
    refine fun err => answers _ rfl (genuine_of_not_positive ?_)
    simp [Positive, dedupeFailed, newResult, statusFailed, statusSucceeded]
  cases pc with
  | claim again =>
    cases err with
    | some err =>
      cases hstep
      exact fails err
    | none =>
      simp only [handleStep] at hstep
      split at hstep
      · cases hstep
        have hclaimed : Sound { s with
            states := update s.states cmd.commandID
              (some (newResult node cmd statusPending "" "")) } := by
          refine h.putState ?_
          rintro _ ⟨⟩
          refine ⟨rfl, genuine_of_not_positive ?_⟩
          simp [Positive, newResult, statusPending, statusSucceeded]
        exact hclaimed.handleMoves hk nofun
      · cases hstep
        exact h.handleMoves hk nofun
  | load again =>
    cases err with
    | some err =>
      cases hstep
      exact fails err
    | none =>
      simp only [handleStep] at hstep
      split at hstep
      · next _ r hstored =>
        cases hstep
        obtain ⟨hid, hgenuine⟩ := h.states _ r hstored
        exact answers _ (by rw [commandID_reported, hid]) (genuine_reported hgenuine)
      · cases hstep
        exact h.handleMoves hk nofun
      · cases hstep
        refine answers _ rfl (genuine_of_not_positive ?_)
        simp [Positive, inProgress, newResult, statusInProgress, statusSucceeded]
  | execute =>
    cases hstep
    have hinvoked : Sound { s with
        executed := s.executed ++ if execution.invoked then [(node, cmd)] else [] } := by
      refine h.execute fun n x hx => ?_
      split_ifs at hx
      · obtain ⟨rfl, rfl⟩ := Prod.mk.inj (mem_singleton.mp hx)
        exact hc.signed
      · cases hx
    refine hinvoked.handleMoves hk ?_
    rintro _ ⟨⟩
    have hid := commandID_completed node (commandID_handledResult node cmd execution)
    refine ⟨hid, ?_⟩
    cases hexecution : execution.invoked with
    | true => exact fun _ => ⟨node, cmd, by simp, hid.symm⟩
    | false =>
      obtain rfl : execution = .notConfigured := by
        cases execution <;> first | rfl | cases hexecution
      exact genuine_of_not_positive (not_positive_notConfigured node cmd)
  | store result =>
    obtain ⟨hid, hgenuine⟩ := hc.result result rfl
    cases err with
    | some err =>
      cases hstep
      refine answers _ hid (genuine_of_not_positive ?_)
      simp [Positive, unpersisted, statusUnknownFinalState, statusSucceeded]
    | none =>
      cases hstep
      have hstored : Sound { s with
          states := update s.states result.commandID (some result) } := by
        refine h.putState ?_
        rintro _ ⟨⟩
        exact ⟨rfl, hgenuine⟩
      refine hstored.handleMoves hk ?_
      rintro _ ⟨⟩
      exact ⟨hid, hgenuine⟩
  | publish result =>
    cases hstep
    have hpublished : Sound { s with
        results := s.results ++ publishCommandResult mac cmd result now } := by
      refine h.publish fun r hr => ?_
      unfold publishCommandResult at hr
      split at hr
      · cases hr
      -- Neither the time nor the signature is among the fields that matter.
      · rw [mem_singleton.mp hr]
        exact (hc.result result rfl).2
    exact hpublished.handleMoves hk nofun
  | done => cases hstep

theorem Sound.deliver (hcmd : s.SignedFor n cmd) :
    Sound { s with handles := s.handles ++ [⟨n, cmd, .claim false⟩] } := by
  have hgrows : Grows s { s with handles := s.handles ++ [⟨n, cmd, .claim false⟩] } :=
    ⟨fun _ hx => hx, fun _ hx => hx⟩
  exact { h with
    handles := forall_mem_snoc (fun g hg => (h.handles g hg).mono hgrows)
      ⟨hcmd, nofun⟩
    sends := fun d hd => (h.sends d hd).mono hgrows }

end

theorem sound_init : Sound .init where
  executed := nofun
  handles := nofun
  states := nofun
  results := nofun
  commands := nofun
  ids := Locks.exclusive_nil
  sends := nofun

theorem Sound.step {a : Action} (hsha : Function.Injective sha256) (h : Sound s)
    (hown : OwnTarget mac sha256 s a) (hstep : CommandBus.step mac sha256 s a = some t) :
    Sound t := by
  cases a with
  | sendCommand n cmd id now => exact h.begin (fun _ hl => by cases hl) hstep
  | requestSessionTakeover n lease id now =>
    refine h.begin ?_ hstep
    rintro _ ⟨⟩
    exact ⟨rfl, rfl, rfl, rfl⟩
  | send k env =>
    obtain ⟨c, ⟨d, new⟩, hk, hd, rfl⟩ := bind_map_eq_some hstep
    exact h.send hk hd
  | receive k reception =>
    obtain ⟨c, d, hk, hd, rfl⟩ := bind_map_eq_some hstep
    exact h.receive hk hd
  | deliver n cmd now =>
    simp only [CommandBus.step] at hstep
    split at hstep
    · next hunforged =>
      split at hstep
      · next u hverify =>
        cases hstep
        obtain ⟨c, hc, hcanonical, hfields⟩ :=
          mem_signedBytes_command hsha hunforged (verify_of_verifyCommand hverify)
        exact h.deliver ⟨c, hc, hfields, hown (by rw [hverify]; rfl) c hc hcanonical⟩
      · cases hstep
        exact h
    · cases hstep
  | handle k env =>
    obtain ⟨c, ⟨w, p⟩, hk, hw, rfl⟩ := bind_map_eq_some hstep
    exact h.handle hk hw
  | expire id =>
    cases hstep
    exact h.putState nofun

theorem Sound.takeover {lease : SessionLease} (h : Sound s) (hc : c ∈ s.sends)
    (hlease : c.lease = some lease) (hnode : lease.owner.nodeID ≠ "")
    (hincarnation : lease.owner.incarnationID ≠ "") (hsucceeded : c.succeeded) :
    ∃ cmd, (lease.owner, cmd) ∈ s.executed ∧ cmd.type = commandTakeover ∧
      cmd.signedFields = c.cmd.signedFields := by
  have hsound := h.sends c hc
  obtain ⟨htype, hsession, htargetNode, htarget⟩ := hsound.takeover lease hlease
  have hsent : c.pc.unsent = false := by
    cases hunsent : c.pc.unsent with
    | false => rfl
    | true =>
      rcases hsound.unsent hunsent with hempty | hempty
      · exact absurd (htargetNode.symm.trans hempty) hnode
      · exact absurd (htarget.symm.trans hempty) hincarnation
  obtain ⟨r, hr, hpositive⟩ : ∃ r, c.pc.result = some r ∧ Positive r := by
    unfold SendCall.succeeded at hsucceeded
    split at hsucceeded
    · next hpc =>
      rw [hpc] at hsent
      cases hsent
    · next r hpc => exact ⟨r, by rw [hpc]; rfl, hsucceeded⟩
    · exact hsucceeded.elim
  obtain ⟨hid, hgenuine⟩ := hsound.result r hr
  obtain ⟨n, cmd, hexecuted, hcmd⟩ := hgenuine hpositive
  obtain ⟨signed, hsigned, hfields, hown⟩ := h.executed n cmd hexecuted
  obtain ⟨d, hd, -, rfl⟩ := h.commands signed hsigned
  -- Command IDs are unique, so the signed command is the one of this call.
  have hsame : d = c := by
    obtain ⟨i, hi⟩ := mem_iff_getElem?.mp hd
    obtain ⟨j, hj⟩ := mem_iff_getElem?.mp hc
    have hcommandID := congrArg ClusterCommand.commandID hfields
    have hne : c.cmd.commandID ≠ "" := hsound.identified hsent
    have hij : i = j := h.ids i j d c c.cmd.commandID hi hj
      ⟨hne, hcommandID.trans (hcmd.trans hid)⟩ ⟨hne, rfl⟩
    subst hij
    exact some.inj (hi.symm.trans hj)
  subst hsame
  have htypes := congrArg ClusterCommand.type hfields
  simp only [ClusterCommand.signedFields] at htypes
  obtain rfl : n = lease.owner := by
    rw [← hown, target, htargetNode, htarget]
  exact ⟨cmd, hexecuted, by rw [← htypes, htype], hfields.symm⟩

/-- If commands reach only the inbox they are signed for: a node executes only what a key holder has
signed for this node and its own incarnation, and `requestSessionTakeover` succeeds only if the node
and incarnation that owns the lease has handled its command. -/
theorem takeover_reaches_target (hsha : Function.Injective sha256) {as : List Action}
    (hrun : run mac sha256 .init as = some s)
    (hown : Transition.Along (CommandBus.step mac sha256) (OwnTarget mac sha256) .init as) :
    (∀ n cmd, (n, cmd) ∈ s.executed →
      ∃ c ∈ s.commands, c.signedFields = cmd.signedFields ∧ target c = n) ∧
    ∀ c ∈ s.sends, ∀ lease, c.lease = some lease → lease.owner.nodeID ≠ "" →
      lease.owner.incarnationID ≠ "" → c.succeeded →
      ∃ cmd, (lease.owner, cmd) ∈ s.executed ∧ cmd.type = commandTakeover ∧
        cmd.signedFields = c.cmd.signedFields := by
  have h : Sound s := Transition.invariant_along sound_init
    (fun s a t hs ha hstep => hs.step hsha ha hstep) hrun hown
  refine ⟨h.executed, ?_⟩
  intro c hc lease hlease hnode hincarnation hsucceeded
  exact h.takeover hc hlease hnode hincarnation hsucceeded

end Provenance

section Runs

def owner : NodeIdentity := ⟨"n1", "1"⟩
def bystander : NodeIdentity := ⟨"n2", "1"⟩
def claimant : NodeIdentity := ⟨"n3", "1"⟩

def ownedLease : SessionLease := ⟨"s", owner, "u", "", "c", 1, true⟩

/-- The takeover command as it is sent. For the runs below the tag of a message is the message. -/
def asked : ClusterCommand :=
  signCommand id id
    { takeoverCommand claimant ownedLease with
      commandID := "id"
      issuedAt := 100
      issuedBy := claimant.nodeID
      metadata := (takeoverCommand claimant ownedLease).metadata.set clusterCommandReplyKey
        (clusterCommandReplyPrefix ++ "r") }

def answered (n : NodeIdentity) : ClusterCommandResult :=
  signResult id { newResult n asked statusSucceeded "" "" with issuedAt := 100 }

def takeoverAt (n : NodeIdentity) : List Action :=
  .requestSessionTakeover claimant ownedLease "id" 100 ::
    List.replicate 4 (.send 0 ⟨none, true, "r"⟩) ++
    .deliver n asked 100 ::
    List.replicate 4 (.handle 0 ⟨none, .handled none ⟨"", "", "", .empty⟩, 100⟩) ++
    [.receive 0 (.reply (answered n) 100)]

def satisfied (n : NodeIdentity) : SendCall :=
  ⟨claimant, some ownedLease, asked, true, .returned (.result (some (answered n)))⟩

theorem succeeded_satisfied (n : NodeIdentity) : (satisfied n).succeeded :=
  .inl rfl

theorem takeover_reaches_target_owner :
    ∃ s, run id id .init (takeoverAt owner) = some s ∧
      ∃ cmd, (owner, cmd) ∈ s.executed ∧ cmd.type = commandTakeover := by
  have hend : (run id id .init (takeoverAt owner)).map (fun s => s.sends) =
      some [satisfied owner] := by
    decide +kernel
  obtain ⟨s, hs, hsends⟩ := map_eq_some_iff.mp hend
  have hown : Transition.Along (step id id) (OwnTarget id id) .init (takeoverAt owner) := by
    decide +kernel
  have hmem : satisfied owner ∈ s.sends := by
    rw [hsends]
    exact mem_singleton.mpr rfl
  obtain ⟨cmd, hexecuted, htype, -⟩ :=
    (takeover_reaches_target injective_id hs hown).2 (satisfied owner) hmem ownedLease rfl
      (by decide) (by decide) (succeeded_satisfied owner)
  exact ⟨s, hs, cmd, hexecuted, htype⟩

/-- The command is moved to the inbox of another node, which does not have the session and answers
that the takeover succeeded; the owner never sees the command. Incarnations count the starts of a
node, so that two nodes may have the same. -/
theorem takeover_misdirected :
    ∃ s, run id id .init (takeoverAt bystander) = some s ∧
      (∃ c ∈ s.sends, c.lease = some ownedLease ∧ c.succeeded) ∧
      target asked = owner ∧ s.executed = [(bystander, asked)] := by
  have hend : (run id id .init (takeoverAt bystander)).map (fun s => (s.sends, s.executed)) =
      some ([satisfied bystander], [(bystander, asked)]) := by
    decide +kernel
  obtain ⟨s, hs, hend⟩ := map_eq_some_iff.mp hend
  obtain ⟨hsends, hexecuted⟩ := Prod.mk.inj hend
  refine ⟨s, hs, ⟨satisfied bystander, ?_, rfl, succeeded_satisfied bystander⟩, rfl, hexecuted⟩
  rw [hsends]
  exact mem_singleton.mpr rfl

end Runs

end MessageLoop.CommandBus
