import MessageLoop.Runtime.Occupancy
import MessageLoop.Runtime.SessionView
import MessageLoop.Session.Namespace

/-!
The join and leave events of one session (`presenceJoin` and `presenceLeave` in
`internal/runtime/node.go`; `finishConnect`, `handleSubscribe`, `handleUnsubscribe` and
`handleSubRefresh` in `internal/session/client.go`; `Close` in `internal/session/session.go`; the
Server API's commands in `internal/runtime/cluster_commands.go`).

The operations on the session come one after the other; any call inside `AddSubscription` and
`RemoveSubscription` may fail. An event counts as emitted when it is handed to `publishOccupancy`.
The presence store is left out: no event depends on it.
-/

namespace MessageLoop.PresenceEvents

open Topics Namespace List SessionView Transition
open Occupancy (PresenceAction)

structure Env where
  session : SessionRef
  config : Config

structure State where
  node : Node
  emitted : List (String × PresenceAction)

namespace State

def setNode (s : State) (n : Node) : State :=
  { s with node := n }

def emit (s : State) (ch : String) (action : PresenceAction) : State :=
  { s with emitted := s.emitted ++ [(ch, action)] }

def events (s : State) (ch : String) : List PresenceAction :=
  (s.emitted.filter fun e => e.1 = ch).map Prod.snd

def view (s : State) (e : Env) : SessionView :=
  s.node.view e.session

def closed (s : State) (e : Env) : Prop :=
  (s.view e).session.state = .closed

instance (s : State) (e : Env) : Decidable (s.closed e) :=
  inferInstanceAs (Decidable (_ = _))

end State

section Handlers
variable (e : Env)

def shouldTrackPresence (ch : String) (ephemeral : Bool) : Bool :=
  !ephemeral && !isWildcard ch && (Authz.effectsLocked e.config.authorizer ch).presence

/-- The flag of the hub's record; without a record the subscription counts as not ephemeral. -/
def storedEphemeral (n : Node) (ch : String) : Bool :=
  ((n.lookupSubscriber ch e.session).map Subscriber.ephemeral).getD false

def presenceJoin (s : State) (ch : String) : State :=
  if shouldTrackPresence e ch (storedEphemeral e s.node ch) then s.emit ch .join else s

def presenceLeave (s : State) (ch : String) (ephemeral : Bool) : State :=
  if shouldTrackPresence e ch ephemeral then s.emit ch .leave else s

/-- What Subscribe and Connect do about presence for a subscription that has been made. -/
def joinNew (n : Node) (sub : Request) (already : Bool) (emitted : List (String × PresenceAction)) :
    List (String × PresenceAction) :=
  if !already && shouldTrackPresence e sub.channel sub.ephemeral then
    (presenceJoin e ⟨n, emitted⟩ sub.channel).emitted
  else emitted

/-- The loop over requested subscriptions that Subscribe and Connect share. -/
def subscribeAll (undoAtLimit : Bool) (s : State) (subs : List Request) : State :=
  let (n, _, emitted) :=
    subscribeEach e.config e.session undoAtLimit (joinNew e) s.node subs [] s.emitted
  ⟨n, emitted⟩

/-- One channel of an Unsubscribe. The error of the removal is dropped. -/
def unsubscribeOne (s : State) (r : Removal) : State :=
  let already := r.channel ∈ s.node.tracked e.session
  let ephemeral := storedEphemeral e s.node r.channel
  let s := s.setNode (removeSubscription s.node r.channel e.session r.out).1
  if already then presenceLeave e s r.channel ephemeral else s

/-- One channel of a SubRefresh that a proxy refuses. It is not asked whether the session was
subscribed. -/
def revokeOne (s : State) (r : Removal) : State :=
  let ephemeral := storedEphemeral e s.node r.channel
  let s := s.setNode (removeSubscription s.node r.channel e.session r.out).1
  presenceLeave e s r.channel ephemeral

def handleUnsubscribe (s : State) (channels : List Removal) : State :=
  channels.foldl (unsubscribeOne e) s

def handleSubRefresh (s : State) (channels : List Removal) : State :=
  (channels.filter Removal.revoked).foldl (revokeOne e) s

/-- The registration of a Connect. A session that is resumed on its node is registered already. -/
def register (s : State) (resumed : Bool) : State :=
  if resumed then s
  else s.setNode (s.node.setHub (s.node.hub.add (s.node.sessionID e.session) e.session))

def finishConnect (s : State) (resumed registered : Bool) (subs : List Request) : State :=
  if !registered then s else subscribeAll e true (register e s resumed) subs

def handleClusterSubscribeCommand (s : State) (ch : String) (out : Outcomes) : State :=
  if s.node.hub.lookupSession (s.node.sessionID e.session) = some e.session then
    let already := (s.node.lookupSubscriber ch e.session).isSome
    match addSubscription s.node ch (newSubscriber e.session false) out with
    | (n, some _) => s.setNode n
    | (n, none) => if already then s.setNode n else presenceJoin e (s.setNode n) ch
  else s

def handleClusterUnsubscribeCommand (s : State) (ch : String) (out : Outcomes) : State :=
  if s.node.hub.lookupSession (s.node.sessionID e.session) = some e.session then
    let stored := s.node.lookupSubscriber ch e.session
    match removeSubscription s.node ch e.session out with
    | (n, some _) => s.setNode n
    | (n, none) =>
      if stored.isSome then
        presenceLeave e (s.setNode n) ch ((stored.map Subscriber.ephemeral).getD false)
      else s.setNode n
  else s

def leaveOne (s : State) (ch : String) : State :=
  presenceLeave e s ch (storedEphemeral e s.node ch)

/-- `channels` is the order in which `Close` ranges over the tracked set, with the outcomes of the
removals. -/
def close (s : State) (channels : List (String × Outcomes)) : Option State :=
  let session := s.node.sessions e.session
  if session.state = .closed then some s
  else if (channels.map Prod.fst).Nodup ∧
      (channels.map Prod.fst).toFinset = session.subscribedChannels then
    let s := s.setNode (s.node.setSession e.session session.markClosed)
    let s := (channels.map Prod.fst).foldl (leaveOne e) s
    let s := s.setNode (removeEach e.session s.node channels)
    some (if session.session ≠ "" then
      s.setNode (s.node.setHub (s.node.hub.removeSessionIfMatches session.session e.session).2)
      else s)
  else none

end Handlers

inductive Op where
  | connect (resumed registered : Bool) (subs : List Request)
  | subscribe (subs : List Request)
  | unsubscribe (channels : List Removal)
  | subRefresh (channels : List Removal)
  | apiSubscribe (ch : String) (out : Outcomes)
  | apiUnsubscribe (ch : String) (out : Outcomes)
  | close (channels : List (String × Outcomes))
  | others (node : Node)

def step (e : Env) (s : State) : Op → Option State
  | .connect resumed registered subs =>
    some (if s.closed e then s else finishConnect e s resumed registered subs)
  | .subscribe subs => some (if s.closed e then s else subscribeAll e false s subs)
  | .unsubscribe channels => some (if s.closed e then s else handleUnsubscribe e s channels)
  | .subRefresh channels => some (if s.closed e then s else handleSubRefresh e s channels)
  | .apiSubscribe ch out => some (handleClusterSubscribeCommand e s ch out)
  | .apiUnsubscribe ch out => some (handleClusterUnsubscribeCommand e s ch out)
  | .close channels => close e s channels
  | .others node => some (s.setNode node)

/-- A connection has just been accepted: a session with an ID and without subscriptions. -/
structure Accepted (e : Env) (s : State) : Prop where
  opened : ¬ s.closed e
  named : (s.view e).session.session ≠ ""
  untracked : (s.view e).session.subscribedChannels = ∅
  unsubscribed : ∀ ch, (s.view e).records ch = none
  silent : s.emitted = []

/-- What happens besides leaves the session's ID, its subscriptions and whether it is closed alone,
and does not register it again once it is closed. -/
def Others (e : Env) (s : State) : Op → Prop
  | .others node =>
    (node.view e.session).records = (s.view e).records ∧
    (node.view e.session).session.session = (s.view e).session.session ∧
    (node.view e.session).session.subscribedChannels = (s.view e).session.subscribedChannels ∧
    ((node.view e.session).session.state = .closed ↔ s.closed e) ∧
    (s.closed e → (node.view e.session).registered = some e.session →
      (s.view e).registered = some e.session)
  | _ => True

def present (e : Env) (v : SessionView) (ch : String) : Bool :=
  match v.records ch with
  | some r => shouldTrackPresence e ch r.ephemeral
  | none => false

def removal (e : Env) (n : Node) (r : Removal) : Option Node :=
  some (removeSubscription n r.channel e.session r.out).1

def Removes (e : Env) (n : Node) (r : Removal) : Prop :=
  present e (n.view e.session) r.channel = true →
    (removeSubscription n r.channel e.session r.out).2 = none

def Subscribed (e : Env) (n : Node) (r : Removal) : Prop :=
  shouldTrackPresence e r.channel false = true →
    ((n.view e.session).records r.channel).isSome = true

instance (e : Env) (n : Node) (r : Removal) : Decidable (Removes e n r) :=
  inferInstanceAs (Decidable (_ → _))

instance (e : Env) (n : Node) (r : Removal) : Decidable (Subscribed e n r) :=
  inferInstanceAs (Decidable (_ → _))

/-- The next request of the loop makes a new subscription with presence. -/
def Joins (e : Env) (n : Node) (sub : Request) : Prop :=
  checkSubscribeACL e.config (n.sessions e.session) sub = .ok () ∧
    sub.channel ∉ n.tracked e.session ∧
    shouldTrackPresence e sub.channel sub.ephemeral = true ∧
    (addSubscription n sub.channel (newSubscriber e.session sub.ephemeral) sub.add).2 = none

/-- The next request ends the loop, which takes back what it has added: at the subscription limit of a
Connect, or with a broker or a store that fails. -/
def Ends (e : Env) (undoAtLimit : Bool) (n : Node) (sub : Request) : Prop :=
  checkSubscribeACL e.config (n.sessions e.session) sub = .ok () ∧
    (overLimit e.config e.session n sub.channel ∧ undoAtLimit = true ∨
      ¬ overLimit e.config e.session n sub.channel ∧
        ∃ err ∈ (addSubscription n sub.channel (newSubscriber e.session sub.ephemeral) sub.add).2,
          softError sub.notRoutable err = false)

instance (e : Env) (n : Node) (sub : Request) : Decidable (Joins e n sub) :=
  inferInstanceAs (Decidable (_ ∧ _))

instance (e : Env) (undoAtLimit : Bool) (n : Node) (sub : Request) :
    Decidable (Ends e undoAtLimit n sub) :=
  inferInstanceAs (Decidable (_ ∧ _))

/-- The requests one after the other, with whether one has joined. -/
def adding (e : Env) (m : Node × Bool) (sub : Request) : Option (Node × Bool) :=
  some (match checkSubscribeACL e.config (m.1.sessions e.session) sub with
    | .error _ => m.1
    | .ok () => (addSubscription m.1 sub.channel (newSubscriber e.session sub.ephemeral) sub.add).1,
    m.2 || decide (Joins e m.1 sub))

/-- No request ends the loop behind one that has joined. -/
def Undisturbed (e : Env) (undoAtLimit : Bool) (n : Node) (subs : List Request) : Prop :=
  Transition.Along (adding e) (fun m sub => m.2 = true → ¬ Ends e undoAtLimit m.1 sub) (n, false) subs

/-- Of the requests of a Connect or a Subscribe, none ends the loop behind one that has joined; in
Unsubscribe and SubRefresh no removal of a member fails; and SubRefresh revokes no channel that the
session is not subscribed to. -/
def Regular (e : Env) (s : State) : Op → Prop
  | .connect resumed _ subs => Undisturbed e true (register e s resumed).node subs
  | .subscribe subs => Undisturbed e false s.node subs
  | .unsubscribe channels => Transition.Along (removal e) (Removes e) s.node channels
  | .subRefresh channels =>
    Transition.Along (removal e) (fun n r => Removes e n r ∧ Subscribed e n r) s.node
      (channels.filter Removal.revoked)
  | .apiSubscribe _ _ => True
  | .apiUnsubscribe _ _ => True
  | .close _ => True
  | .others _ => True

instance decidableRegular (e : Env) (s : State) : (op : Op) → Decidable (Regular e s op)
  | .connect .. | .subscribe _ => inferInstanceAs (Decidable (Transition.Along (adding e) _ _ _))
  | .unsubscribe _ => inferInstanceAs (Decidable (Transition.Along (removal e) (Removes e) _ _))
  | .subRefresh _ => inferInstanceAs (Decidable (Transition.Along (removal e)
      (fun n r => Removes e n r ∧ Subscribed e n r) _ _))
  | .apiSubscribe .. | .apiUnsubscribe .. | .close _ | .others _ => isTrue trivial

variable {e : Env} {s t : State} {n : Node} {v : SessionView} {ch : String} {sub : Subscriber}
variable {out : Outcomes} {ephemeral : Bool}

section Alternation

structure Alternating (l : List PresenceAction) : Prop where
  chain : l.IsChain (· ≠ ·)
  starts : l.head? ≠ some .leave

variable {l : List PresenceAction}

theorem alternating_nil : Alternating [] := ⟨List.IsChain.nil, Option.some_ne_none _ |>.symm⟩

theorem Alternating.join (h : Alternating l) (hout : l.getLast? ≠ some .join) :
    Alternating (l ++ [.join]) := by
  constructor
  · apply h.chain.append (isChain_singleton _)
    intro x hx y hy
    obtain rfl : PresenceAction.join = y := by simpa using hy
    intro heq
    exact hout (heq ▸ hx)
  · cases l with
    | nil => simp
    | cons a l => simpa using h.starts

theorem Alternating.leave (h : Alternating l) (hin : l.getLast? = some .join) :
    Alternating (l ++ [.leave]) := by
  constructor
  · apply h.chain.append (isChain_singleton _)
    intro x hx y hy
    obtain rfl : PresenceAction.leave = y := by simpa using hy
    obtain rfl : PresenceAction.join = x := by simpa [hin] using hx
    intro heq
    cases heq
  · cases l with
    | nil => simp at hin
    | cons a l => simpa using h.starts

end Alternation

section Views
variable {x : String} {action : PresenceAction}

@[simp] theorem view_setNode : (s.setNode n).view e = n.view e.session := rfl

@[simp] theorem events_setNode : (s.setNode n).events ch = s.events ch := rfl

theorem events_emit : (s.emit ch action).events x =
    if x = ch then s.events x ++ [action] else s.events x := by
  unfold State.events State.emit
  by_cases hx : x = ch
  · subst hx
    simp
  · simp [hx, Ne.symm hx]

theorem present_add_self :
    present e (v.add ch sub) ch = shouldTrackPresence e ch sub.ephemeral := by
  simp [present, add, setRecord]

theorem present_add_of_ne (hx : x ≠ ch) :
    present e (v.add ch sub) x = present e v x := by
  simp [present, add, setRecord, hx]

theorem present_remove_self : present e (v.remove ch) ch = false := by
  simp [present, remove, setRecord]

theorem present_remove_of_ne (hx : x ≠ ch) : present e (v.remove ch) x = present e v x := by
  simp [present, remove, setRecord, hx]

theorem present_of_none (h : v.records ch = none) : present e v ch = false := by
  simp [present, h]

theorem present_of_some {r : Subscriber} (h : v.records ch = some r) :
    present e v ch = shouldTrackPresence e ch r.ephemeral := by
  simp [present, h]

theorem storedEphemeral_of_some {r : Subscriber} (h : (n.view e.session).records ch = some r) :
    storedEphemeral e n ch = r.ephemeral := by
  have hlookup : n.lookupSubscriber ch e.session = some r := h
  simp [storedEphemeral, hlookup]

end Views

/-- An open session is a member of the channels whose last event is a join. -/
structure Attended (e : Env) (s : State) : Prop where
  opened : ¬ s.closed e
  named : (s.view e).session.session ≠ ""
  owned : (s.view e).Owned e.session
  alternating : ∀ ch, Alternating (s.events ch)
  joined : ∀ ch, (s.events ch).getLast? = some .join ↔ present e (s.view e) ch = true

/-- A closed session has left every channel, and is not found by its ID. -/
structure Left (e : Env) (s : State) : Prop where
  closed : s.closed e
  alternating : ∀ ch, Alternating (s.events ch)
  left : ∀ ch, (s.events ch).getLast? ≠ some .join
  unregistered : (s.view e).registered ≠ some e.session

section Changes

theorem Attended.keep (h : Attended e s)
    (hrecords : (n.view e.session).records = (s.view e).records)
    (hid : (n.view e.session).session.session = (s.view e).session.session)
    (htracked : (n.view e.session).session.subscribedChannels =
      (s.view e).session.subscribedChannels)
    (hopened : (n.view e.session).session.state ≠ .closed) : Attended e (s.setNode n) where
  opened := hopened
  named := by
    rw [view_setNode, hid]
    exact h.named
  owned := by
    rw [view_setNode]
    refine ⟨?_, ?_⟩
    · intro x
      rw [htracked, hrecords]
      exact h.owned.tracked x
    · intro x r hr
      rw [hrecords] at hr
      exact h.owned.held x r hr
  alternating := h.alternating
  joined := by
    intro x
    rw [view_setNode, present, hrecords]
    exact h.joined x

theorem Attended.of_view (h : Attended e s) (hview : n.view e.session = s.view e) :
    Attended e (s.setNode n) := by
  refine h.keep ?_ ?_ ?_ ?_ <;> rw [hview]
  exact h.opened

theorem Attended.turn (ch : String) (h : Attended e s) (hview : t.view e = v)
    (hstate : v.session.state = (s.view e).session.state)
    (hid : v.session.session = (s.view e).session.session) (howned : v.Owned e.session)
    (hevents : ∀ x, x ≠ ch → t.events x = s.events x)
    (hpresent : ∀ x, x ≠ ch → present e v x = present e (s.view e) x)
    (hhere : Alternating (t.events ch))
    (hjoined : (t.events ch).getLast? = some .join ↔ present e v ch = true) :
    Attended e t := by
  subst hview
  refine ⟨?_, ?_, howned, ?_, ?_⟩
  · unfold State.closed
    rw [hstate]
    exact h.opened
  · rw [hid]
    exact h.named
  · intro x
    by_cases hx : x = ch
    · rwa [hx]
    · rw [hevents x hx]
      exact h.alternating x
  · intro x
    by_cases hx : x = ch
    · rwa [hx]
    · rw [hevents x hx, hpresent x hx]
      exact h.joined x

theorem events_emit_of_ne {action : PresenceAction} (x : String) (hx : x ≠ ch) :
    ((s.setNode n).emit ch action).events x = s.events x := by
  rw [events_emit, if_neg hx, events_setNode]

theorem events_emit_self {action : PresenceAction} :
    ((s.setNode n).emit ch action).events ch = s.events ch ++ [action] := by
  rw [events_emit, if_pos rfl, events_setNode]

theorem Attended.added (h : Attended e s) (hsub : sub.session = e.session)
    (hnone : (s.view e).records ch = none) (hvalid : validTopic ch = true)
    (hview : n.view e.session = (s.view e).add ch sub) :
    Attended e (presenceJoin e (s.setNode n) ch) := by
  have hstored : storedEphemeral e n ch = sub.ephemeral := by
    apply storedEphemeral_of_some
    rw [hview]
    simp [add, setRecord]
  have hout : (s.events ch).getLast? ≠ some .join := by
    rw [Ne, h.joined, present_of_none hnone]
    exact Bool.false_ne_true
  have howned := h.owned.add hsub hvalid
  unfold presenceJoin
  rw [show (s.setNode n).node = n from rfl, hstored]
  split_ifs with htrack
  · refine h.turn ch hview rfl rfl howned events_emit_of_ne (fun x => present_add_of_ne) ?_ ?_
    · rw [events_emit_self]
      exact (h.alternating ch).join hout
    · rw [events_emit_self]
      exact iff_of_true (by simp) (present_add_self.trans htrack)
  · refine h.turn ch hview rfl rfl howned (fun _ _ => rfl) (fun x => present_add_of_ne)
      (h.alternating ch) ?_
    rw [present_add_self]
    exact iff_of_false hout htrack

theorem Attended.removed (h : Attended e s) (hsome : (s.view e).records ch = some sub)
    (hview : n.view e.session = (s.view e).remove ch) :
    Attended e (presenceLeave e (s.setNode n) ch sub.ephemeral) := by
  have hin := h.joined ch
  rw [present_of_some hsome] at hin
  have hself : ¬ present e ((s.view e).remove ch) ch = true :=
    ne_true_of_eq_false present_remove_self
  unfold presenceLeave
  split_ifs with htrack
  · refine h.turn ch hview rfl rfl h.owned.remove events_emit_of_ne
      (fun x => present_remove_of_ne) ?_ ?_
    · rw [events_emit_self]
      exact (h.alternating ch).leave (hin.mpr htrack)
    · rw [events_emit_self]
      exact iff_of_false (by simp) hself
  · refine h.turn ch hview rfl rfl h.owned.remove (fun _ _ => rfl) (fun x => present_remove_of_ne)
      (h.alternating ch) ?_
    exact iff_of_false (fun hlast => htrack (hin.mp hlast)) hself

end Changes

section Calls

theorem Attended.tracked_iff (h : Attended e s) :
    ch ∈ s.node.tracked e.session ↔ ((s.view e).records ch).isSome = true :=
  h.owned.tracked ch

theorem addSubscription_of_some {r : Subscriber} (hsome : (s.view e).records ch = some r) :
    addSubscription s.node ch (newSubscriber e.session ephemeral) out = (s.node, none) := by
  have hlookup : s.node.lookupSubscriber ch e.session = some r := hsome
  simp [addSubscription, newSubscriber, hlookup]

theorem removeSubscription_of_none (hnone : (s.view e).records ch = none) :
    removeSubscription s.node ch e.session out = (s.node, none) := by
  have hlookup : s.node.lookupSubscriber ch e.session = none := hnone
  simp [removeSubscription, hlookup]

variable (h : Attended e s)
include h

theorem Attended.subscribe (hnone : (s.view e).records ch = none)
    (hadd : addSubscription s.node ch (newSubscriber e.session ephemeral) out = (n, none)) :
    Attended e (presenceJoin e (s.setNode n) ch) := by
  have hview := view_addSubscription (newSubscriber e.session ephemeral) out h.owned rfl hnone
  rw [hadd] at hview
  exact h.added rfl hnone hview.2.1 hview.1

theorem Attended.view_of_addFailed {err : String × StepError}
    (hadd : addSubscription s.node ch (newSubscriber e.session ephemeral) out = (n, some err)) :
    n.view e.session = s.view e := by
  cases hrecord : (s.view e).records ch with
  | some r =>
    rw [addSubscription_of_some hrecord] at hadd
    cases hadd
  | none =>
    have hview := view_addSubscription (newSubscriber e.session ephemeral) out h.owned rfl hrecord
    rwa [hadd] at hview

theorem Attended.unsubscribe {r : Subscriber} (hsome : (s.view e).records ch = some r)
    (hremove : removeSubscription s.node ch e.session out = (n, none)) :
    Attended e (presenceLeave e (s.setNode n) ch r.ephemeral) := by
  have hview := view_removeSubscription ch out h.owned
  rw [hremove] at hview
  exact h.removed hsome hview

theorem Attended.view_of_removeFailed {err : String × StepError}
    (hremove : removeSubscription s.node ch e.session out = (n, some err)) :
    n.view e.session = s.view e := by
  have hview := view_removeSubscription ch out h.owned
  rwa [hremove] at hview

theorem Attended.discard (out : Outcomes) (habsent : present e (s.view e) ch = false) :
    Attended e (s.setNode (removeSubscription s.node ch e.session out).1) ∧
      ∀ x, present e (s.view e) x = false → present e
        ((removeSubscription s.node ch e.session out).1.view e.session) x = false := by
  have hview := view_removeSubscription ch out h.owned
  rcases hremove : removeSubscription s.node ch e.session out with ⟨n, _ | err⟩ <;>
    rw [hremove] at hview
  · have hout : (s.events ch).getLast? ≠ some .join := by simp [h.joined, habsent]
    refine ⟨h.turn ch hview rfl rfl h.owned.remove (fun _ _ => rfl) (fun x => present_remove_of_ne)
      (h.alternating ch) (iff_of_false hout (by simp [present_remove_self])), ?_⟩
    intro x hx
    rw [hview]
    by_cases hch : x = ch
    · rw [hch, present_remove_self]
    · exact (present_remove_of_ne hch).trans hx
  · refine ⟨h.of_view hview, ?_⟩
    intro x hx
    rw [hview]
    exact hx

theorem Attended.discardEach {channels : List (String × Outcomes)}
    (habsent : ∀ r ∈ channels, present e (s.view e) r.1 = false) :
    Attended e (s.setNode (removeEach e.session s.node channels)) := by
  induction channels generalizing s with
  | nil => exact h
  | cons r channels ih =>
    obtain ⟨hnext, hkept⟩ := h.discard r.2 (habsent r mem_cons_self)
    refine ih hnext ?_
    intro q hq
    exact hkept q.1 (habsent q (mem_cons_of_mem r hq))

end Calls

section Loop
variable {undoAtLimit : Bool} {subs : List Request} {added : List (String × Outcomes)}

theorem joinNew_eq {sub : Request} (emitted : List (String × PresenceAction))
    (hrecord : (n.view e.session).records sub.channel =
      some (newSubscriber e.session sub.ephemeral)) :
    (⟨n, joinNew e n sub false emitted⟩ : State) = presenceJoin e ⟨n, emitted⟩ sub.channel := by
  have hstored : storedEphemeral e n sub.channel = sub.ephemeral := storedEphemeral_of_some hrecord
  unfold joinNew presenceJoin
  rw [hstored]
  cases shouldTrackPresence e sub.channel sub.ephemeral <;> rfl

/-- As long as no request has joined, the session is a member of none of the channels that have been
added, and there is nobody to miss when they are taken back. -/
theorem attended_subscribeEach {emitted : List (String × PresenceAction)} {joined : Bool}
    (h : Attended e ⟨n, emitted⟩)
    (hadded : joined = false → ∀ r ∈ added, present e (n.view e.session) r.1 = false)
    (hgoes : Transition.Along (adding e) (fun m sub => m.2 = true → ¬ Ends e undoAtLimit m.1 sub)
      (n, joined) subs) :
    Attended e ⟨(subscribeEach e.config e.session undoAtLimit (joinNew e) n subs added emitted).1,
      (subscribeEach e.config e.session undoAtLimit (joinNew e) n subs added emitted).2.2⟩ := by
  induction subs generalizing n added emitted joined with
  | nil => exact h
  | cons sub rest ih =>
    have hnext := hgoes.2 _ rfl
    have hrest {m : Node} (hsame : m.view e.session = n.view e.session) :
        (joined || decide (Joins e n sub)) = false →
          ∀ r ∈ added, present e (m.view e.session) r.1 = false := by
      rw [hsame, Bool.or_eq_false_iff]
      exact fun hjoined => hadded hjoined.1
    have hback {m : Node} (hsame : m.view e.session = n.view e.session)
        (hends : Ends e undoAtLimit n sub) :
        Attended e ⟨removeEach e.session m added, emitted⟩ := by
      refine Attended.discardEach (h.of_view hsame) ?_
      rw [view_setNode, hsame]
      apply hadded
      cases joined with
      | false => rfl
      | true => exact absurd hends (hgoes.1 rfl)
    rw [subscribeEach]
    cases hacl : checkSubscribeACL e.config (n.sessions e.session) sub with
    | error err =>
      simp only [hacl] at hnext
      exact ih h (hrest rfl) hnext
    | ok =>
      simp only [hacl] at hnext
      by_cases hlimit : overLimit e.config e.session n sub.channel
      · rw [if_pos hlimit]
        cases undoAtLimit with
        | false => exact h
        | true => exact hback rfl ⟨hacl, .inl ⟨hlimit, rfl⟩⟩
      rw [if_neg hlimit]
      rcases hadd : addSubscription n sub.channel (newSubscriber e.session sub.ephemeral) sub.add
        with ⟨m, _ | err⟩
      · rw [hadd] at hnext
        by_cases htracked : sub.channel ∈ n.tracked e.session
        · obtain ⟨r, hr⟩ := Option.isSome_iff_exists.mp (h.tracked_iff.mp htracked)
          cases (addSubscription_of_some hr).symm.trans hadd
          simp only [htracked, if_true, decide_true]
          exact ih h (hrest rfl) hnext
        · have hnone : (n.view e.session).records sub.channel = none :=
            Option.not_isSome_iff_eq_none.mp fun hsome => htracked (h.tracked_iff.mpr hsome)
          obtain ⟨hview, -⟩ : m.view e.session = (n.view e.session).add sub.channel _ ∧ _ := by
            simpa only [hadd] using view_addSubscription
              (newSubscriber e.session sub.ephemeral) sub.add h.owned rfl hnone
          have hrecord : (m.view e.session).records sub.channel =
              some (newSubscriber e.session sub.ephemeral) := by
            rw [hview]
            exact Function.update_self ..
          simp only [htracked, if_false, decide_false]
          refine ih ?_ ?_ hnext
          · rw [joinNew_eq emitted hrecord]
            exact h.subscribe hnone hadd
          · intro hjoined r hr
            rw [Bool.or_eq_false_iff, decide_eq_false_iff_not] at hjoined
            by_cases hch : r.1 = sub.channel
            · rw [hch, present_of_some hrecord]
              apply Bool.eq_false_of_not_eq_true
              intro htrack
              exact hjoined.2 ⟨hacl, htracked, htrack, congrArg Prod.snd hadd⟩
            · rcases mem_append.mp hr with hr | hr
              · rw [hview, present_add_of_ne hch]
                exact hadded hjoined.1 r hr
              · exact absurd (congrArg Prod.fst (mem_singleton.mp hr)) hch
      · rw [hadd] at hnext
        have hsame := h.view_of_addFailed hadd
        dsimp only
        split_ifs with hsoft
        · exact ih (h.of_view hsame) (hrest hsame) hnext
        · refine hback hsame ⟨hacl, .inr ⟨hlimit, err, ?_, by simpa using hsoft⟩⟩
          rw [hadd]
          rfl

theorem attended_subscribeAll (h : Attended e s) (hgoes : Undisturbed e undoAtLimit s.node subs) :
    Attended e (subscribeAll e undoAtLimit s subs) :=
  attended_subscribeEach h nofun hgoes

end Loop

section Removals
variable {r : Removal} {channels : List Removal}

theorem Attended.unsubscribeOne (h : Attended e s) (hremoves : Removes e s.node r) :
    Attended e (unsubscribeOne e s r) := by
  unfold PresenceEvents.unsubscribeOne
  cases hrecord : (s.view e).records r.channel with
  | none =>
    have huntracked : r.channel ∉ s.node.tracked e.session := h.owned.untracked hrecord
    simp only [huntracked, if_false, removeSubscription_of_none hrecord]
    exact h
  | some record =>
    have htracked : r.channel ∈ s.node.tracked e.session := by
      rw [h.tracked_iff, hrecord]
      rfl
    have hstored : storedEphemeral e s.node r.channel = record.ephemeral :=
      storedEphemeral_of_some hrecord
    simp only [htracked, if_true, hstored]
    cases hpresent : present e (s.view e) r.channel with
    | true =>
      have hremoved : removeSubscription s.node r.channel e.session r.out =
          ((removeSubscription s.node r.channel e.session r.out).1, none) :=
        Prod.ext rfl (hremoves hpresent)
      exact h.unsubscribe hrecord hremoved
    | false =>
      have hquiet := (h.discard r.out hpresent).1
      rw [present_of_some hrecord] at hpresent
      unfold presenceLeave
      rw [hpresent, if_neg Bool.false_ne_true]
      exact hquiet

theorem revokeOne_eq (h : Attended e s) (hsubscribed : Subscribed e s.node r) :
    revokeOne e s r = unsubscribeOne e s r := by
  unfold revokeOne unsubscribeOne
  cases hrecord : (s.view e).records r.channel with
  | some record =>
    have htracked : r.channel ∈ s.node.tracked e.session := by
      rw [h.tracked_iff, hrecord]
      rfl
    simp only [htracked, if_true]
  | none =>
    have huntracked : r.channel ∉ s.node.tracked e.session := h.owned.untracked hrecord
    have hstored : storedEphemeral e s.node r.channel = false := by
      have hlookup : s.node.lookupSubscriber r.channel e.session = none := hrecord
      simp [storedEphemeral, hlookup]
    have hgate : shouldTrackPresence e r.channel false = false := by
      apply Bool.eq_false_of_not_eq_true
      intro htrack
      have hsome := hsubscribed htrack
      rw [show (s.node.view e.session).records r.channel = none from hrecord] at hsome
      cases hsome
    simp only [huntracked, if_false, hstored, presenceLeave, hgate, Bool.false_eq_true]

theorem node_unsubscribeOne : (unsubscribeOne e s r).node =
    (removeSubscription s.node r.channel e.session r.out).1 := by
  unfold unsubscribeOne presenceLeave
  dsimp only
  split_ifs <;> rfl

theorem attended_handleUnsubscribe (h : Attended e s)
    (hremoves : Transition.Along (removal e) (Removes e) s.node channels) :
    Attended e (handleUnsubscribe e s channels) := by
  induction channels generalizing s with
  | nil => exact h
  | cons r channels ih =>
    refine ih (h.unsubscribeOne hremoves.1) ?_
    rw [node_unsubscribeOne]
    exact hremoves.2 _ rfl

theorem attended_handleSubRefresh (h : Attended e s)
    (hrevokes : Transition.Along (removal e) (fun n r => Removes e n r ∧ Subscribed e n r) s.node
      (channels.filter Removal.revoked)) :
    Attended e (handleSubRefresh e s channels) := by
  unfold handleSubRefresh
  generalize channels.filter Removal.revoked = revoked at hrevokes
  induction revoked generalizing s with
  | nil => exact h
  | cons r revoked ih =>
    rw [foldl_cons, revokeOne_eq h hrevokes.1.2]
    refine ih (h.unsubscribeOne hrevokes.1.1) ?_
    rw [node_unsubscribeOne]
    exact hrevokes.2 _ rfl

end Removals

section Commands

theorem attended_finishConnect {resumed registered : Bool} {subs : List Request}
    (h : Attended e s) (hgoes : Undisturbed e true (register e s resumed).node subs) :
    Attended e (finishConnect e s resumed registered subs) := by
  cases registered with
  | false => exact h
  | true =>
    refine attended_subscribeAll ?_ hgoes
    cases resumed with
    | true => exact h
    | false =>
      refine h.keep ?_ rfl rfl h.opened
      funext x
      unfold Node.setHub Hub.add
      split_ifs <;> rfl

theorem attended_handleClusterSubscribeCommand (h : Attended e s) :
    Attended e (handleClusterSubscribeCommand e s ch out) := by
  unfold handleClusterSubscribeCommand
  split_ifs with hfound
  · rcases hadd : addSubscription s.node ch (newSubscriber e.session false) out with ⟨n, err⟩
    cases err with
    | some err => exact h.of_view (h.view_of_addFailed hadd)
    | none =>
      cases hrecord : (s.view e).records ch with
      | some r =>
        rw [addSubscription_of_some hrecord] at hadd
        cases hadd
        have hlookup : s.node.lookupSubscriber ch e.session = some r := hrecord
        simp only [hlookup, Option.isSome_some, if_true]
        exact h
      | none =>
        have hlookup : s.node.lookupSubscriber ch e.session = none := hrecord
        simp only [hlookup, Option.isSome_none, Bool.false_eq_true, if_false]
        exact h.subscribe hrecord hadd
  · exact h

theorem attended_handleClusterUnsubscribeCommand (h : Attended e s) :
    Attended e (handleClusterUnsubscribeCommand e s ch out) := by
  unfold handleClusterUnsubscribeCommand
  split_ifs with hfound
  · rcases hremove : removeSubscription s.node ch e.session out with ⟨n, err⟩
    cases err with
    | some err => exact h.of_view (h.view_of_removeFailed hremove)
    | none =>
      cases hrecord : (s.view e).records ch with
      | none =>
        rw [removeSubscription_of_none hrecord] at hremove
        cases hremove
        have hlookup : s.node.lookupSubscriber ch e.session = none := hrecord
        simp only [hlookup, Option.isSome_none, Bool.false_eq_true, if_false]
        exact h
      | some r =>
        have hlookup : s.node.lookupSubscriber ch e.session = some r := hrecord
        simp only [hlookup, Option.isSome_some, if_true, Option.map_some, Option.getD_some]
        exact h.unsubscribe hrecord hremove
  · exact h

end Commands

section Close
variable {channels : List (String × Outcomes)}

theorem node_leaveEach (names : List String) : (names.foldl (leaveOne e) s).node = s.node := by
  induction names generalizing s with
  | nil => rfl
  | cons x names ih =>
    rw [foldl_cons, ih]
    unfold leaveOne presenceLeave
    split_ifs <;> rfl

theorem events_leaveEach {names : List String} (hdistinct : names.Nodup)
    (hrecords : ∀ x ∈ names, ((s.view e).records x).isSome = true) :
    (names.foldl (leaveOne e) s).events ch =
      if ch ∈ names ∧ present e (s.view e) ch = true then s.events ch ++ [.leave]
      else s.events ch := by
  induction names generalizing s with
  | nil => simp
  | cons x names ih =>
    rw [nodup_cons] at hdistinct
    obtain ⟨r, hr⟩ := Option.isSome_iff_exists.mp (hrecords x mem_cons_self)
    have hnode : (leaveOne e s x).node = s.node := node_leaveEach [x]
    have hview : (leaveOne e s x).view e = s.view e := by
      unfold State.view
      rw [hnode]
    have hleave : (leaveOne e s x).events ch =
        if ch = x ∧ present e (s.view e) ch = true then s.events ch ++ [.leave]
        else s.events ch := by
      unfold leaveOne presenceLeave
      rw [storedEphemeral_of_some hr]
      by_cases htrack : shouldTrackPresence e x r.ephemeral = true
      · rw [if_pos htrack, events_emit]
        by_cases hx : ch = x
        · subst hx
          rw [if_pos rfl, if_pos ⟨rfl, (present_of_some hr).trans htrack⟩]
        · rw [if_neg hx, if_neg (fun hboth => hx hboth.1)]
      · rw [if_neg htrack, if_neg]
        intro hboth
        obtain ⟨rfl, hpresent⟩ := hboth
        exact htrack ((present_of_some hr).symm.trans hpresent)
    rw [foldl_cons, ih hdistinct.2 ?_, hview, hleave]
    · by_cases hx : ch = x
      · subst hx
        simp [hdistinct.1]
      · simp [hx]
    · intro y hy
      rw [hview]
      exact hrecords y (mem_cons_of_mem x hy)

theorem kept_removeEach (channels : List (String × Outcomes))
    (h : (n.view e.session).Owned e.session) :
    ((removeEach e.session n channels).view e.session).registered =
        (n.view e.session).registered ∧
      ((removeEach e.session n channels).view e.session).session.state =
        (n.view e.session).session.state ∧
      ((removeEach e.session n channels).view e.session).session.session =
        (n.view e.session).session.session := by
  unfold removeEach
  induction channels generalizing n with
  | nil => exact ⟨rfl, rfl, rfl⟩
  | cons r channels ih =>
    rw [foldl_cons]
    have hview := view_removeSubscription r.1 r.2 h
    rcases hremove : removeSubscription n r.1 e.session r.2 with ⟨m, _ | err⟩ <;>
      rw [hremove] at hview
    · have hkept := ih (n := m) (hview ▸ h.remove)
      rwa [hview] at hkept
    · have hkept := ih (n := m) (hview ▸ h)
      rwa [hview] at hkept

theorem lookupSession_removeSessionIfMatches {h : Hub} {sid : String} {c : SessionRef} :
    (h.removeSessionIfMatches sid c).2.lookupSession sid ≠ some c := by
  unfold Hub.removeSessionIfMatches Hub.lookupSession Hub.removeSession
  split_ifs with hmatches
  · rw [Finmap.lookup_erase]
    exact (Option.some_ne_none _).symm
  · exact hmatches

theorem left_close (h : Attended e s) (hclose : close e s channels = some t) : Left e t := by
  unfold close at hclose
  dsimp only at hclose
  rw [if_neg (show (s.node.sessions e.session).state ≠ .closed from h.opened)] at hclose
  split at hclose
  case isFalse => cases hclose
  case isTrue hchannels =>
    rw [if_pos (show (s.node.sessions e.session).session ≠ "" from h.named)] at hclose
    cases hclose
    have hmarked : (s.node.setSession e.session (s.node.sessions e.session).markClosed).view
        e.session = { s.view e with session := (s.view e).session.markClosed } :=
      view_setSession rfl
    generalize s.node.setSession e.session (s.node.sessions e.session).markClosed = m at hmarked ⊢
    have howned : (m.view e.session).Owned e.session := by
      rw [hmarked]
      exact ⟨h.owned.tracked, h.owned.held⟩
    have hnames : ∀ x, x ∈ channels.map Prod.fst ↔ ((s.view e).records x).isSome = true := by
      intro x
      rw [← h.tracked_iff, ← mem_toFinset, hchannels.2]
      rfl
    have hnode : ((channels.map Prod.fst).foldl (leaveOne e) (s.setNode m)).node = m :=
      node_leaveEach _
    have hevents : ∀ x, ((channels.map Prod.fst).foldl (leaveOne e) (s.setNode m)).events x =
        if present e (s.view e) x = true then s.events x ++ [.leave] else s.events x := by
      intro x
      have hpresent : present e ((s.setNode m).view e) x = present e (s.view e) x := by
        rw [view_setNode, hmarked]
        rfl
      rw [events_leaveEach hchannels.1, hpresent]
      · by_cases hx : present e (s.view e) x = true
        · have hmem : x ∈ channels.map Prod.fst := by
            rw [hnames]
            by_contra hnot
            rw [present_of_none (Option.not_isSome_iff_eq_none.mp hnot)] at hx
            cases hx
          rw [if_pos ⟨hmem, hx⟩, if_pos hx]
          rfl
        · rw [if_neg (fun hboth => hx hboth.2), if_neg hx]
          rfl
      · intro y hy
        rw [view_setNode, hmarked]
        exact (hnames y).mp hy
    rw [hnode]
    obtain ⟨-, hstate, hid⟩ := kept_removeEach channels howned
    rw [hmarked] at hstate hid
    refine ⟨hstate, ?_, ?_, ?_⟩
    · intro x
      rw [events_setNode, events_setNode, hevents]
      split_ifs with hx
      · exact (h.alternating x).leave ((h.joined x).mpr hx)
      · exact h.alternating x
    · intro x
      rw [events_setNode, events_setNode, hevents]
      split_ifs with hx
      · simp
      · exact fun hlast => hx ((h.joined x).mp hlast)
    · have hsid : (removeEach e.session m channels).sessionID e.session =
          (s.node.sessions e.session).session := hid
      show Hub.lookupSession _ ((removeEach e.session m channels).sessionID e.session) ≠ _
      rw [hsid]
      exact lookupSession_removeSessionIfMatches

end Close

section Runs
variable {op : Op} {ops : List Op}

theorem Accepted.attended (h : Accepted e s) : Attended e s where
  opened := h.opened
  named := h.named
  owned := by
    refine ⟨?_, ?_⟩
    · intro ch
      simp [h.untracked, h.unsubscribed]
    · intro ch r hr
      rw [h.unsubscribed] at hr
      cases hr
  alternating := by
    intro ch
    simp only [State.events, h.silent]
    exact alternating_nil
  joined := by
    intro ch
    rw [present_of_none (h.unsubscribed ch)]
    simp [State.events, h.silent]

theorem Attended.step (h : Attended e s) (hothers : Others e s op) (hregular : Regular e s op)
    (hstep : step e s op = some t) : Attended e t ∨ Left e t := by
  cases op with
  | connect resumed registered subs =>
    cases hstep
    rw [if_neg h.opened]
    exact .inl (attended_finishConnect h hregular)
  | subscribe subs =>
    cases hstep
    rw [if_neg h.opened]
    exact .inl (attended_subscribeAll h hregular)
  | unsubscribe channels =>
    cases hstep
    rw [if_neg h.opened]
    exact .inl (attended_handleUnsubscribe h hregular)
  | subRefresh channels =>
    cases hstep
    rw [if_neg h.opened]
    exact .inl (attended_handleSubRefresh h hregular)
  | apiSubscribe ch out =>
    cases hstep
    exact .inl (attended_handleClusterSubscribeCommand h)
  | apiUnsubscribe ch out =>
    cases hstep
    exact .inl (attended_handleClusterUnsubscribeCommand h)
  | close channels => exact .inr (left_close h hstep)
  | others node =>
    cases hstep
    obtain ⟨hrecords, hid, htracked, hclosed, -⟩ := hothers
    exact .inl (h.keep hrecords hid htracked fun hc => h.opened (hclosed.mp hc))

theorem Left.step (h : Left e s) (hothers : Others e s op) (hstep : step e s op = some t) :
    Left e t := by
  have hunfound : s.node.hub.lookupSession (s.node.sessionID e.session) ≠ some e.session :=
    h.unregistered
  cases op with
  | connect resumed registered subs | subscribe subs | unsubscribe channels
  | subRefresh channels =>
    cases hstep
    rwa [if_pos h.closed]
  | apiSubscribe ch out =>
    cases hstep
    rwa [handleClusterSubscribeCommand, if_neg hunfound]
  | apiUnsubscribe ch out =>
    cases hstep
    rwa [handleClusterUnsubscribeCommand, if_neg hunfound]
  | close channels =>
    have hsame : close e s channels = some s := if_pos h.closed
    cases hsame.symm.trans hstep
    exact h
  | others node =>
    cases hstep
    obtain ⟨-, -, -, hclosed, hregistered⟩ := hothers
    exact ⟨hclosed.mpr h.closed, h.alternating, h.left,
      fun hfound => h.unregistered (hregistered h.closed hfound)⟩

/-- The events of the session alternate on every channel and begin with a join, and a session that
has been closed has left. -/
theorem events_alternate {start : State} (hstart : Accepted e start)
    (hothers : Transition.Along (step e) (Others e) start ops)
    (hregular : Transition.Along (step e) (Regular e) start ops)
    (hrun : Transition.run (step e) start ops = some s) :
    ∀ ch, (s.events ch).IsChain (· ≠ ·) ∧ (s.events ch).head? ≠ some .leave ∧
      (s.closed e → (s.events ch).getLast? ≠ some .join) := by
  have hkept : Attended e s ∨ Left e s := by
    refine invariant_along (P := fun m => Attended e m ∨ Left e m)
      (.inl hstart.attended) ?_ hrun
      (along_and (step e) hothers hregular)
    intro m op t hm hok hstep
    rcases hm with hm | hm
    · exact hm.step hok.1 hok.2 hstep
    · exact .inr (hm.step hok.1 hstep)
  intro ch
  rcases hkept with h | h
  · exact ⟨(h.alternating ch).chain, (h.alternating ch).starts,
      fun hclosed => absurd hclosed h.opened⟩
  · exact ⟨(h.alternating ch).chain, (h.alternating ch).starts, fun _ => h.left ch⟩

def memberEnv : Env where
  session := 0
  config :=
    { requireAuth := true
      serverNamespace := ""
      maxSubscriptionsPerClient := 2
      authorizer := ⟨Channel.defaultChannelPolicy, []⟩
      validated := rfl }

def acceptedState : State where
  node := .new false fun _ => .newClient "s1" ⟨0, 0, .protobuf⟩
  emitted := []

theorem accepted_acceptedState : Accepted memberEnv acceptedState where
  opened := by decide
  named := by decide
  untracked := rfl
  unsubscribed ch := Hub.lookupSubscriber_empty ch "s1"
  silent := rfl

def requested (ch : String) (broker : Bool) : Request :=
  ⟨ch, false, "", true, ⟨fun k => k ≠ .broker || broker, fun _ => true⟩,
    .ok, false⟩

def removed (ch : String) : Removal :=
  ⟨ch, true, .ok⟩

def memberOps : List Op :=
  [.connect false true [requested "a" true], .unsubscribe [removed "a"],
    .subscribe [requested "b" false, requested "a" true], .subscribe [requested "a" true],
    .subRefresh [removed "a"],
    .apiSubscribe "a" .ok,
    .close [("a", .ok)]]

theorem events_alternate_member : ∃ s,
    Transition.run (step memberEnv) acceptedState memberOps = some s ∧ s.closed memberEnv ∧
      s.events "a" = [.join, .leave, .join, .leave, .join, .leave] ∧
      ((s.events "a").IsChain (· ≠ ·) ∧ (s.events "a").head? ≠ some .leave ∧
        (s.closed memberEnv → (s.events "a").getLast? ≠ some .join)) := by
  have hlog : (run (step memberEnv) acceptedState memberOps).map (fun s =>
      (decide (s.closed memberEnv), s.events "a")) =
        some (true, [.join, .leave, .join, .leave, .join, .leave]) := by
    decide +kernel
  obtain ⟨s, hrun, hs⟩ := Option.map_eq_some_iff.mp hlog
  obtain ⟨hclosed, hevents⟩ := Prod.mk.inj hs
  refine ⟨s, hrun, of_decide_eq_true hclosed, hevents,
    events_alternate accepted_acceptedState ?_ (by decide +kernel) hrun "a"⟩
  apply along_of_forall
  intro op hop m
  simp only [memberOps, mem_cons, not_mem_nil, or_false] at hop
  rcases hop with rfl | rfl | rfl | rfl | rfl | rfl | rfl <;> trivial

/-- A Connect that fails at its second subscription takes back the first one without a leave. -/
theorem events_unfinished : Accepted memberEnv acceptedState ∧ ∃ s,
    Transition.run (step memberEnv) acceptedState
      [.connect false true [requested "a" true, requested "b" false], .close []] = some s ∧
      s.closed memberEnv ∧ s.events "a" = [.join] := by
  have hlog : (run (step memberEnv) acceptedState
      [.connect false true [requested "a" true, requested "b" false], .close []]).map (fun s =>
        (decide (s.closed memberEnv), s.events "a")) = some (true, [.join]) := by
    decide +kernel
  obtain ⟨s, hrun, hs⟩ := Option.map_eq_some_iff.mp hlog
  obtain ⟨hclosed, hevents⟩ := Prod.mk.inj hs
  exact ⟨accepted_acceptedState, s, hrun, of_decide_eq_true hclosed, hevents⟩

end Runs

end MessageLoop.PresenceEvents
