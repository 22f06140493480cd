import MessageLoop.Runtime.Recover

/-!
The recovery cursors of the Go client (`sdks/go/client.go`): which frames move the cursor of a
channel, and what a reconnect asks for. `handled` records what the message handler has been given;
it is not a field of the source.
-/

namespace MessageLoop.SDK

open Recover

structure Envelope where
  channel : String
  position : Option Position
  replay : Bool
  deriving DecidableEq, Repr

structure Message where
  channel : String
  offset : Option Nat
  deriving DecidableEq, Repr

structure SubscriptionState where
  ephemeral : Bool
  token : String
  deriving DecidableEq, Repr

structure ListedSubscription where
  channel : String
  ephemeral : Bool
  token : String
  deriving DecidableEq, Repr

structure ResumeSubscription extends Recover.Subscription where
  ephemeral : Bool
  token : String
  deriving DecidableEq, Repr

/-- The frames of the server that change subscriptions or cursors, or bring messages. -/
inductive Frame where
  | connected (epoch : String) (listed : List ListedSubscription)
  | subscribeAck (subs : List ListedSubscription)
  | unsubscribeAck (channels : List String)
  | publication (envs : List Envelope)
  | recoverComplete (channel : String) (position : Position)
  deriving DecidableEq, Repr

structure Client where
  epoch : String
  subscriptions : List (String × SubscriptionState)
  channelOffsets : String → Option Nat
  hasHandler : Bool
  handled : List Message

def newClient (hasHandler : Bool) : Client :=
  ⟨"", [], fun _ => none, hasHandler, []⟩

def messageFromEnv (env : Envelope) : Message :=
  ⟨env.channel, offsetFrom env.position⟩

namespace Client

/-- Only live messages move the cursor; a replayed run waits for its `RecoverComplete`. -/
def trackOffset (c : Client) (env : Envelope) : Client :=
  if env.replay then c
  else
    match offsetFrom env.position with
    | none => c
    | some offset =>
      { c with channelOffsets := Function.update c.channelOffsets env.channel (some offset) }

/-- The cursor is stored first, then the whole frame goes to the handler. -/
def handlePublication (c : Client) (envs : List Envelope) : Client :=
  let c := envs.foldl trackOffset c
  if envs = [] ∨ !c.hasHandler then c
  else { c with handled := c.handled ++ envs.map messageFromEnv }

def handleRecoverComplete (c : Client) (channel : String) (position : Position) : Client :=
  if channel = "" then c
  else
    match position.offset with
    | none => c
    | some offset =>
      { c with channelOffsets := Function.update c.channelOffsets channel (some offset) }

/-- The server's list of subscriptions is authoritative; a token it does not echo is kept. -/
def handleConnected (c : Client) (epoch : String) (listed : List ListedSubscription) : Client :=
  { c with
    epoch := epoch
    subscriptions := listed.map fun sub =>
      (sub.channel, ⟨sub.ephemeral,
        if sub.token ≠ "" then sub.token
        else ((c.subscriptions.lookup sub.channel).map SubscriptionState.token).getD ""⟩) }

/-- One subscription of a `SubscribeAck`: the flag is the server's, a token it does not echo is
kept. -/
def acknowledge (c : Client) (sub : ListedSubscription) : Client :=
  let token := if sub.token ≠ "" then sub.token
    else ((c.subscriptions.lookup sub.channel).map SubscriptionState.token).getD ""
  { c with
    subscriptions :=
      (sub.channel, ⟨sub.ephemeral, token⟩) :: c.subscriptions.filter (·.1 ≠ sub.channel) }

def handleSubscribeAck (c : Client) (subs : List ListedSubscription) : Client :=
  subs.foldl acknowledge c

def forget (c : Client) (channel : String) : Client :=
  { c with
    subscriptions := c.subscriptions.filter (·.1 ≠ channel)
    channelOffsets := Function.update c.channelOffsets channel none }

def handleUnsubscribeAck (c : Client) (channels : List String) : Client :=
  channels.foldl forget c

def handleMessage (c : Client) : Frame → Client
  | .connected epoch listed => c.handleConnected epoch listed
  | .subscribeAck subs => c.handleSubscribeAck subs
  | .unsubscribeAck channels => c.handleUnsubscribeAck channels
  | .publication envs => c.handlePublication envs
  | .recoverComplete channel position => c.handleRecoverComplete channel position

def resumeSubscriptions (c : Client) : List ResumeSubscription :=
  c.subscriptions.map fun (channel, state) =>
    { channel := channel
      recover := true
      fresh := false
      cursor := (c.channelOffsets channel).map fun offset => ⟨c.epoch, some offset⟩
      ephemeral := state.ephemeral
      token := state.token }

def Handled (c : Client) (channel : String) (offset : Nat) : Prop :=
  ⟨channel, some offset⟩ ∈ c.handled

instance (c : Client) (channel : String) (offset : Nat) : Decidable (c.Handled channel offset) :=
  inferInstanceAs (Decidable (_ ∈ _))

section Frames
variable {c : Client} {channel : String} {offset : Nat}

@[simp] theorem trackOffset_handled (env : Envelope) : (c.trackOffset env).handled = c.handled := by
  unfold trackOffset
  split
  · rfl
  · split <;> rfl

@[simp] theorem trackOffset_hasHandler (env : Envelope) :
    (c.trackOffset env).hasHandler = c.hasHandler := by
  unfold trackOffset
  split
  · rfl
  · split <;> rfl

theorem foldl_trackOffset (envs : List Envelope) :
    (envs.foldl trackOffset c).handled = c.handled ∧
      (envs.foldl trackOffset c).hasHandler = c.hasHandler := by
  induction envs generalizing c with
  | nil => exact ⟨rfl, rfl⟩
  | cons env envs ih => simpa using ih (c := c.trackOffset env)

theorem handlePublication_channelOffsets (envs : List Envelope) :
    (c.handlePublication envs).channelOffsets = (envs.foldl trackOffset c).channelOffsets := by
  unfold handlePublication
  dsimp only
  split <;> rfl

theorem handlePublication_hasHandler (envs : List Envelope) :
    (c.handlePublication envs).hasHandler = c.hasHandler := by
  have hfold := (foldl_trackOffset (c := c) envs).2
  unfold handlePublication
  dsimp only
  split <;> exact hfold

theorem handled_handlePublication (hhandler : c.hasHandler = true) {envs : List Envelope} :
    (c.handlePublication envs).Handled channel offset ↔
      c.Handled channel offset ∨
        ∃ env ∈ envs, env.channel = channel ∧ offsetFrom env.position = some offset := by
  obtain ⟨hhandled, hkept⟩ := foldl_trackOffset (c := c) envs
  have hmem : (⟨channel, some offset⟩ : Message) ∈ envs.map messageFromEnv ↔
      ∃ env ∈ envs, env.channel = channel ∧ offsetFrom env.position = some offset := by
    simp [messageFromEnv]
  rw [← hmem]
  unfold handlePublication Handled
  dsimp only
  split
  · rename_i hempty
    obtain rfl : envs = [] := by simpa [hkept, hhandler] using hempty
    simp
  · rw [List.mem_append, hhandled]

theorem channelOffsets_replay (position : Option Position) :
    (c.handlePublication [⟨channel, position, true⟩]).channelOffsets = c.channelOffsets := by
  rw [handlePublication_channelOffsets]
  rfl

theorem channelOffsets_live {envs : List Envelope} (epoch : String) :
    (c.handlePublication (envs ++ [⟨channel, some ⟨epoch, some offset⟩, false⟩])).channelOffsets
      channel = some offset := by
  rw [handlePublication_channelOffsets, List.foldl_append]
  simp [trackOffset, offsetFrom]

theorem handleRecoverComplete_handled (position : Position) :
    (c.handleRecoverComplete channel position).handled = c.handled := by
  unfold handleRecoverComplete
  split
  · rfl
  · split <;> rfl

theorem handleRecoverComplete_hasHandler (position : Position) :
    (c.handleRecoverComplete channel position).hasHandler = c.hasHandler := by
  unfold handleRecoverComplete
  split
  · rfl
  · split <;> rfl

theorem mem_resumeSubscriptions {sub : ResumeSubscription} (h : sub ∈ c.resumeSubscriptions) :
    sub.recover = true ∧ sub.fresh = false ∧
      offsetFrom sub.cursor = c.channelOffsets sub.channel := by
  obtain ⟨⟨channel, state⟩, -, rfl⟩ := List.mem_map.mp h
  refine ⟨rfl, rfl, ?_⟩
  cases hoffset : c.channelOffsets channel <;> simp [offsetFrom, hoffset]

end Frames

end Client

end MessageLoop.SDK
