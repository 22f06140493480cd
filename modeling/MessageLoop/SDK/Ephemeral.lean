import MessageLoop.SDK.Client
import MessageLoop.Session.Namespace
import Mathlib.Data.List.Sort
import Mathlib.Data.String.Basic

/-!
The ephemeral flags of a client over any number of reconnects.

The flag of a subscription makes a round trip: the client sends it with its requests, and writes back
what the server lists. A `SubscribeAck` echoes the request; a `Connected` lists the channels the
session tracks (`subscriptionList` in `internal/session/client.go`).
-/

namespace MessageLoop.SDK.Ephemeral

open Namespace Recover List Client ListedSubscription

section Server

/-- What a requested channel is answered: by the proxy, and by the calls that add it and, if the
request fails later, remove it again. -/
structure Answer where
  proxyAllows : Bool
  add : Outcomes
  undo : Outcomes
  notRoutable : Bool

def request (answers : String → Answer) (sub : ListedSubscription) : Namespace.Request :=
  ⟨sub.channel, sub.ephemeral, sub.token, (answers sub.channel).proxyAllows,
    (answers sub.channel).add, (answers sub.channel).undo, (answers sub.channel).notRoutable⟩

def sorted (channels : Finset String) : List String :=
  Quotient.liftOn channels.val (List.insertionSort (· ≤ ·)) fun _ _ hperm =>
    List.Perm.eq_of_sortedLE List.sortedLE_insertionSort List.sortedLE_insertionSort
      ((List.perm_insertionSort _ _).trans (hperm.trans (List.perm_insertionSort _ _).symm))

theorem mem_sorted {channels : Finset String} {channel : String} :
    channel ∈ sorted channels ↔ channel ∈ channels := by
  obtain ⟨⟨l⟩, hl⟩ := channels
  exact mem_insertionSort _

theorem nodup_sorted (channels : Finset String) : (sorted channels).Nodup := by
  obtain ⟨⟨l⟩, hl⟩ := channels
  exact (perm_insertionSort _ l).nodup_iff.mpr hl

def subscriptionList (n : Node) (c : SessionRef) : List ListedSubscription :=
  (sorted (n.tracked c)).map fun channel => ⟨channel, false, ""⟩

/-- The subscriptions that a `SubscribeAck` echoes. -/
def handleSubscribe (cfg : Namespace.Config) (n : Node) (c : SessionRef)
    (requests : List Namespace.Request) : Node × Return × List ListedSubscription :=
  subscribeEach cfg c false (fun _ sub _ acked => acked ++ [⟨sub.channel, sub.ephemeral, sub.token⟩])
    n requests [] []

end Server

section Machine

/-- `chosen` holds the flags with which the application has subscribed the channels that are still
subscribed, `renewed` the channels it has subscribed on the current connection. -/
structure State where
  node : Node
  session : SessionRef
  client : Client
  generation : Nat
  chosen : String → Option Bool
  renewed : List String

/-- `server` is anything that happens on the node meanwhile. A reconnect that the server resumes
keeps the session, one that starts afresh names a new one; its `Connected` may get lost. -/
inductive Action where
  | connect (channels : List String) (session : SessionRef) (answers : String → Answer)
      (epoch : String) (answered : Bool)
  | subscribe (subs : List ListedSubscription) (answers : String → Answer)
  | unsubscribe (channels : List Removal)
  | server (node : Node)
  | reconnect (session : SessionRef) (answers : String → Answer) (epoch : String)
      (answered : Bool)

variable (cfg : Namespace.Config)

def start (node : Node) (hasHandler : Bool) : State :=
  ⟨node, 0, newClient hasHandler, 0, fun _ => none, []⟩

/-- The client gets the `Connected` of the session: what it does not list is not subscribed any
more. -/
def State.connected (s : State) (node : Node) (session : SessionRef)
    (chosen : String → Option Bool) (epoch : String) : State :=
  { s with
    node := node
    session := session
    client := s.client.handleMessage (.connected epoch (subscriptionList node session))
    chosen := fun channel => if channel ∈ node.tracked session then chosen channel else none
    renewed := [] }

/-- The loop of `finishConnect` over the requested channels, and its `Connected`. -/
def State.serveConnect (s : State) (session : SessionRef) (requests : List Namespace.Request)
    (chosen : String → Option Bool) (epoch : String) (answered : Bool) : State :=
  match subscribeEach cfg session true (fun _ _ _ => id) s.node requests [] () with
  | (n, .ok, _) => if answered then s.connected n session chosen epoch else { s with node := n }
  | (n, _, _) => { s with node := n }

def State.acknowledged (s : State) (acked : List ListedSubscription) : State :=
  { s with
    client := s.client.handleMessage (.subscribeAck acked)
    chosen := acked.foldl (fun f sub => Function.update f sub.channel (some sub.ephemeral)) s.chosen
    renewed := s.renewed ++ acked.map channel }

def State.unsubscribed (s : State) (channels : List String) : State :=
  { s with
    client := s.client.handleMessage (.unsubscribeAck channels)
    chosen := fun channel => if channel ∈ channels then none else s.chosen channel
    renewed := s.renewed.filter (· ∉ channels) }

def step (s : State) : Action → Option State
  | .connect channels session answers epoch answered =>
    if s.generation = 0 then
      some ({ s with generation := 1 }.serveConnect cfg session
        (channels.map fun channel => request answers ⟨channel, false, ""⟩)
        (fun channel => if channel ∈ channels then some false else none) epoch answered)
    else none
  | .subscribe subs answers =>
    if s.generation = 0 then none
    else
      let inside := subs.filter fun sub =>
        (precheckChannel (s.node.sessions s.session) sub.channel).isOk
      match handleSubscribe cfg s.node s.session (inside.map (request answers)) with
      | (n, .ok, acked) => some ({ s with node := n }.acknowledged acked)
      | (n, _, _) => some { s with node := n }
  | .unsubscribe channels =>
    if s.generation = 0 then none
    else if channels.all fun r =>
        (precheckChannel (s.node.sessions s.session) r.channel).isOk then
      some ({ s with node := handleUnsubscribe s.node s.session channels }.unsubscribed
        (channels.map Removal.channel))
    else some s
  | .server node => some { s with node := node }
  | .reconnect session answers epoch answered =>
    if s.generation = 0 then none
    else
      some ({ s with generation := s.generation + 1 }.serveConnect cfg session
        (s.client.resumeSubscriptions.map fun sub : ResumeSubscription =>
          request answers ⟨sub.channel, sub.ephemeral, sub.token⟩)
        s.chosen epoch answered)

/-- A reconnect lists every channel that is still subscribed with the application's flag. -/
def Kept (s : State) : Action → Prop
  | .reconnect _ _ _ _ => ∀ channel flag, s.chosen channel = some flag →
      (∃ sub ∈ s.client.resumeSubscriptions, sub.channel = channel) ∧
        ∀ sub ∈ s.client.resumeSubscriptions, sub.channel = channel → sub.ephemeral = flag
  | _ => True

def Renewed (s : State) : Action → Prop
  | .reconnect _ _ _ _ => ∀ channel, s.chosen channel = some true → channel ∈ s.renewed
  | _ => True

end Machine

section Flags

/-- The client has every chosen channel, with the flag that is right for a channel subscribed on the
current connection; the flags of the others are cleared. -/
structure Listed (s : State) : Prop where
  nodup : (s.client.subscriptions.map Prod.fst).Nodup
  listed : ∀ channel flag, s.chosen channel = some flag →
    channel ∈ s.client.subscriptions.map Prod.fst
  flags : ∀ channel state flag, (channel, state) ∈ s.client.subscriptions →
    s.chosen channel = some flag → state.ephemeral = (flag && decide (channel ∈ s.renewed))

variable {cfg : Namespace.Config} {s t : State}

theorem mem_map_subscriptionList {n : Node} {c : SessionRef} {channel : String} :
    channel ∈ (subscriptionList n c).map ListedSubscription.channel ↔ channel ∈ n.tracked c := by
  simp [subscriptionList, mem_sorted]

theorem nodup_subscriptionList (n : Node) (c : SessionRef) :
    ((subscriptionList n c).map channel).Nodup := by
  have hmap : (subscriptionList n c).map channel = sorted (n.tracked c) := by
    simp [subscriptionList, Function.comp_def]
  rw [hmap]
  exact nodup_sorted _

theorem listed_connected (s : State) (node : Node) (session : SessionRef)
    (chosen : String → Option Bool) (epoch : String) :
    Listed (s.connected node session chosen epoch) := by
  have hkeys : (s.connected node session chosen epoch).client.subscriptions.map Prod.fst =
      (subscriptionList node session).map ListedSubscription.channel := by
    simp [State.connected, Client.handleMessage, handleConnected, Function.comp_def]
  refine ⟨?_, ?_, ?_⟩
  · rw [hkeys]
    exact nodup_subscriptionList node session
  · intro channel flag hflag
    rw [hkeys, mem_map_subscriptionList]
    by_contra hout
    simp [State.connected, hout] at hflag
  · intro channel state flag hmem _
    simp only [State.connected, Client.handleMessage, handleConnected,
      mem_map, Prod.mk.injEq] at hmem
    obtain ⟨sub, hsub, rfl, rfl⟩ := hmem
    simp only [subscriptionList, mem_map] at hsub
    obtain ⟨name, -, rfl⟩ := hsub
    simp [State.connected]

theorem listed_acknowledge (hs : Listed s) (sub : ListedSubscription) :
    Listed { s with
      client := s.client.acknowledge sub
      chosen := Function.update s.chosen sub.channel (some sub.ephemeral)
      renewed := s.renewed ++ [sub.channel] } := by
  have hfilter : (s.client.subscriptions.filter (·.1 ≠ sub.channel)).map Prod.fst =
      (s.client.subscriptions.map Prod.fst).filter (· ≠ sub.channel) := by
    rw [filter_map]
    rfl
  refine ⟨?_, ?_, ?_⟩
  · simp only [acknowledge, map_cons, nodup_cons, hfilter]
    refine ⟨?_, hs.nodup.filter _⟩
    simp
  · intro channel flag hflag
    simp only [acknowledge, map_cons, mem_cons, hfilter]
    by_cases hchannel : channel = sub.channel
    · exact .inl hchannel
    · dsimp only at hflag
      rw [Function.update_of_ne hchannel] at hflag
      exact .inr (mem_filter.mpr ⟨hs.listed channel flag hflag, by simpa using hchannel⟩)
  · intro channel state flag hmem hflag
    simp only [acknowledge, mem_cons, Prod.mk.injEq, mem_filter] at hmem
    rcases hmem with ⟨rfl, rfl⟩ | ⟨hmem, hne⟩
    · simpa using hflag
    · have hchannel : channel ≠ sub.channel := by simpa using hne
      dsimp only at hflag
      rw [Function.update_of_ne hchannel] at hflag
      rw [hs.flags channel state flag hmem hflag]
      simp [hchannel]

theorem listed_acknowledged (hs : Listed s) (acked : List ListedSubscription) :
    Listed (s.acknowledged acked) := by
  induction acked generalizing s with
  | nil => simpa [State.acknowledged, Client.handleMessage, handleSubscribeAck] using hs
  | cons sub acked ih =>
    have hnext := ih (listed_acknowledge hs sub)
    simpa [State.acknowledged, Client.handleMessage, handleSubscribeAck] using hnext

theorem subscriptions_forget (c : Client) (channels : List String) :
    (channels.foldl forget c).subscriptions =
      c.subscriptions.filter (·.1 ∉ channels) := by
  induction channels generalizing c with
  | nil => simp
  | cons name channels ih =>
    rw [foldl_cons, ih]
    simp only [forget, filter_filter]
    apply filter_congr
    intro entry _
    simp [Bool.and_comm]

theorem listed_unsubscribed (hs : Listed s) (channels : List String) :
    Listed (s.unsubscribed channels) := by
  have hsubs : (s.unsubscribed channels).client.subscriptions =
      s.client.subscriptions.filter (·.1 ∉ channels) := subscriptions_forget s.client channels
  have hchosen : ∀ {channel flag}, (s.unsubscribed channels).chosen channel = some flag →
      channel ∉ channels ∧ s.chosen channel = some flag := by
    intro channel flag hflag
    by_cases hchannel : channel ∈ channels
    · simp [State.unsubscribed, hchannel] at hflag
    · exact ⟨hchannel, by simpa [State.unsubscribed, hchannel] using hflag⟩
  refine ⟨?_, ?_, ?_⟩
  · rw [hsubs]
    exact hs.nodup.sublist (filter_sublist.map Prod.fst)
  · intro channel flag hflag
    obtain ⟨hout, hflag⟩ := hchosen hflag
    obtain ⟨entry, hentry, rfl⟩ := mem_map.mp (hs.listed channel flag hflag)
    rw [hsubs]
    exact mem_map_of_mem (mem_filter.mpr ⟨hentry, by simpa using hout⟩)
  · intro channel state flag hmem hflag
    obtain ⟨hout, hflag⟩ := hchosen hflag
    rw [hsubs] at hmem
    rw [hs.flags channel state flag (mem_filter.mp hmem).1 hflag]
    simp [State.unsubscribed, hout]

theorem Listed.of_node (hs : Listed s) (node : Node) (generation : Nat) :
    Listed { s with node := node, generation := generation } :=
  { hs with }

theorem listed_serveConnect (hs : Listed s) (session : SessionRef) (requests : List Namespace.Request)
    (chosen : String → Option Bool) (epoch : String) (answered : Bool) :
    Listed (s.serveConnect cfg session requests chosen epoch answered) := by
  unfold State.serveConnect
  split
  · split
    · exact listed_connected ..
    · exact hs.of_node ..
  · exact hs.of_node ..

theorem listed_step {a : Action} (hs : Listed s) (h : step cfg s a = some t) : Listed t := by
  cases a with
  | connect channels session answers epoch answered =>
    simp only [step] at h
    split at h
    · cases h
      exact listed_serveConnect (hs.of_node s.node 1) ..
    · cases h
  | subscribe subs answers =>
    simp only [step] at h
    split at h
    · cases h
    · split at h
      · cases h
        exact listed_acknowledged (hs.of_node _ s.generation) _
      · cases h
        exact hs.of_node _ s.generation
  | unsubscribe channels =>
    simp only [step] at h
    split at h
    · cases h
    · split at h
      · cases h
        exact listed_unsubscribed (hs.of_node _ s.generation) _
      · cases h
        exact hs
  | server node =>
    cases h
    exact hs.of_node node s.generation
  | reconnect session answers epoch answered =>
    simp only [step] at h
    split at h
    · cases h
    · cases h
      exact listed_serveConnect (hs.of_node s.node _) ..

theorem Listed.kept_iff (hs : Listed s) (a : Action) : Kept s a ↔ Renewed s a := by
  cases a with
  | reconnect session answers epoch answered =>
    constructor
    · intro hkept channel hchosen
      obtain ⟨⟨sub, hsub, rfl⟩, hflags⟩ := hkept channel true hchosen
      have hflag := hflags sub hsub rfl
      obtain ⟨⟨name, state⟩, hentry, rfl⟩ := mem_map.mp hsub
      have hstate := hs.flags name state true hentry hchosen
      rw [show state.ephemeral = true from hflag] at hstate
      simpa using hstate
    · intro hrenewed channel flag hchosen
      constructor
      · obtain ⟨entry, hentry, rfl⟩ := mem_map.mp (hs.listed channel flag hchosen)
        exact ⟨_, mem_map_of_mem hentry, rfl⟩
      · intro sub hsub hchannel
        obtain ⟨⟨name, state⟩, hentry, rfl⟩ := mem_map.mp hsub
        obtain rfl : name = channel := hchannel
        show state.ephemeral = flag
        rw [hs.flags name state flag hentry hchosen]
        cases flag with
        | false => rfl
        | true => simpa using hrenewed name hchosen
  | _ => exact Iff.rfl

theorem listed_start (node : Node) (hasHandler : Bool) : Listed (start node hasHandler) := by
  refine ⟨nodup_nil, ?_, ?_⟩
  · nofun
  · nofun

/-- Along every run the reconnects list the application's flags exactly if they list no ephemeral
subscription from before the last `Connected`. -/
theorem ephemeral_kept_iff (cfg : Namespace.Config) (node : Node) (hasHandler : Bool)
    (actions : List Action) :
    Transition.Along (step cfg) Kept (start node hasHandler) actions ↔
      Transition.Along (step cfg) Renewed (start node hasHandler) actions :=
  Transition.along_congr (listed_start node hasHandler) (fun _ _ _ hs h => listed_step hs h)
    (fun _ a hs => hs.kept_iff a) actions

def accepting : String → Answer :=
  fun _ => ⟨true, .ok, .ok, false⟩

def chatNode : Node :=
  .new false fun _ => { Session.newClient "s1" ⟨0, 0, .protobuf⟩ with
    state := .attached, authenticated := true, ns := "a" }

def chatConfig : Namespace.Config where
  requireAuth := true
  serverNamespace := ""
  maxSubscriptionsPerClient := 0
  authorizer := ⟨Channel.defaultChannelPolicy, []⟩
  validated := by simp

/-- The `Connected` of the first resume lists the channel without its flag, and the second reconnect
asks for an ordinary subscription. -/
theorem ephemeral_lost_on_resume :
    ∃ s, Transition.run (step chatConfig) (start chatNode true)
        [.connect [] 0 accepting "e1" true, .subscribe [⟨"a:chat", true, ""⟩] accepting,
          .reconnect 0 accepting "e1" true] = some s ∧
      s.chosen "a:chat" = some true ∧
      s.client.resumeSubscriptions.map (fun sub => (sub.channel, sub.ephemeral)) =
        [("a:chat", false)] ∧
      ¬ Kept s (.reconnect 0 accepting "e1" true) := by
  refine ⟨_, rfl, by decide, by decide, ?_⟩
  intro hkept
  obtain ⟨⟨sub, hsub, hchannel⟩, hflags⟩ := hkept "a:chat" true (by decide)
  have hflag := hflags sub hsub hchannel
  have hmem := mem_map_of_mem (f := fun sub : ResumeSubscription =>
    (sub.channel, sub.ephemeral)) hsub
  rw [hchannel, hflag] at hmem
  revert hmem
  decide

end Flags

end MessageLoop.SDK.Ephemeral
