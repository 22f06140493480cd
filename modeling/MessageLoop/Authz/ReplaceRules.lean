import MessageLoop.Lib.Locks
import MessageLoop.Runtime.SessionView
import MessageLoop.Session.Namespace

/-!
The replacement of the rule table (`ReplaceRules` of `internal/runtime/node.go`) among Subscribe
requests (`internal/session/client.go`). The swap, a look at the sessions, a look at the channels of
one session, the removal of one key, the decision on a subscription and its `AddSubscription` are
each one step. The operations on subscriptions succeed.
-/

namespace MessageLoop.ReplaceRules

open Authz Namespace

/-- What `ReplaceRules` has still to do: `revoke` holds the keys of one session. -/
inductive Sweep where
  | replace
  | list
  | sessions (todo : List SessionRef)
  | revoke (client : SessionRef) (keys : List String) (todo : List SessionRef)
  | returned
  deriving DecidableEq, Repr

/-- `add` says whether the decision was made by the old table. -/
inductive Pc where
  | decide
  | add (old : Bool)
  | returned
  deriving DecidableEq, Repr

structure Call where
  session : SessionRef
  sub : Request
  pc : Pc

/-- `registered` are the sessions in the hub, `channels` is what each of them is subscribed to. -/
structure State where
  authorizer : Authorizer
  sessions : SessionRef → Session
  registered : Finset SessionRef
  channels : SessionRef → Finset String
  sweep : Sweep
  calls : List Call

/-- The lists are the orders in which maps are ranged over. -/
inductive Action where
  | replace
  | list (sessions : List SessionRef)
  | session (channels : List String)
  | revoke
  | decide (k : Nat)
  | add (k : Nat)

def Allows (a : Authorizer) (s : Session) (key : String) : Prop :=
  (decide a ⟨s.user⟩ .subscribePattern key).allow = true

def removeSubscription (s : State) (key : String) (c : SessionRef) : SessionRef → Finset String :=
  Function.update s.channels c ((s.channels c).erase key)

def addSubscription (s : State) (key : String) (c : SessionRef) : SessionRef → Finset String :=
  Function.update s.channels c (insert key (s.channels c))

/-- The two updates are what the node's own calls, when they succeed, do to the channels of a session
whose subscriptions are in order. -/
theorem tracked_of_success {n t : Node} {c : SessionRef} {key : String} {sub : Subscriber}
    {out : Outcomes} (h : (n.view c).Owned c) (hsub : sub.session = c) :
    (MessageLoop.addSubscription n key sub out = (t, none) → t.tracked c = insert key (n.tracked c)) ∧
      (MessageLoop.removeSubscription n key c out = (t, none) →
        t.tracked c = (n.tracked c).erase key) := by
  refine ⟨fun heq => ?_, fun heq => ?_⟩
  · cases hrecord : (n.view c).records key with
    | none =>
      have hadd := view_addSubscription sub out h hsub hrecord
      rw [heq] at hadd
      exact congrArg (fun v => v.session.subscribedChannels) hadd.1
    | some r =>
      unfold MessageLoop.addSubscription at heq
      rw [show n.lookupSubscriber key sub.session = some r from hsub ▸ hrecord] at heq
      cases heq
      exact (Finset.insert_eq_of_mem ((h.tracked key).mpr (by rw [hrecord]; rfl))).symm
  · have hremove := view_removeSubscription key out h
    rw [heq] at hremove
    exact congrArg (fun v => v.session.subscribedChannels) hremove

variable (cfg : Config) (new : Authorizer)

def sweepStep (s : State) : Action → Option State
  | .replace =>
    if s.sweep = .replace then some { s with authorizer := new, sweep := .list } else none
  | .list sessions =>
    if s.sweep = .list ∧ sessions.toFinset = s.registered then
      some { s with sweep := .sessions sessions }
    else none
  | .session channels =>
    match s.sweep with
    | .sessions [] => some { s with sweep := .returned }
    | .sessions (c :: todo) =>
      if channels.toFinset = s.channels c then
        let p : Principal := ⟨(s.sessions c).user⟩
        some { s with sweep := .revoke c (patternsToRevoke s.authorizer p channels) todo }
      else none
    | _ => none
  | .revoke =>
    match s.sweep with
    | .revoke _ [] todo => some { s with sweep := .sessions todo }
    | .revoke c (key :: keys) todo =>
      some { s with channels := removeSubscription s key c, sweep := .revoke c keys todo }
    | _ => none
  | _ => none

def decided (s : State) (c : Call) : Pc :=
  match checkSubscribeACL { cfg with authorizer := s.authorizer } (s.sessions c.session) c.sub with
  | .ok () => .add (s.sweep = .replace)
  | .error _ => .returned

def added (s : State) (c : Call) : SessionRef → Finset String :=
  if 0 < cfg.maxSubscriptionsPerClient ∧ c.sub.channel ∉ s.channels c.session ∧
      cfg.maxSubscriptionsPerClient ≤ (s.channels c.session).card then s.channels
  else addSubscription s c.sub.channel c.session

def step (s : State) : Action → Option State
  | .decide k => s.calls[k]?.bind fun c =>
      if c.pc = .decide then some { s with calls := s.calls.set k { c with pc := decided cfg s c } }
      else none
  | .add k => s.calls[k]?.bind fun c =>
      match c.pc with
      | .add _ => some { s with
          channels := added cfg s c, calls := s.calls.set k { c with pc := .returned } }
      | _ => none
  | a => sweepStep new s a

abbrev run : State → List Action → Option State :=
  Transition.run (step cfg new)

def Sweep.ahead : Sweep → SessionRef → Bool
  | .replace, _ | .list, _ => true
  | .sessions todo, c | .revoke _ _ todo, c => todo.any (· = c)
  | .returned, _ => false

/-- A request that the old table has allowed adds its subscription before the sweep looks. -/
def InTime (s : State) : Action → Prop
  | .add k => ∀ c ∈ s.calls[k]?, c.pc = .add true → s.sweep.ahead c.session = true
  | _ => True

variable {cfg new} {s t : State}

def Sweep.due : Sweep → SessionRef → String → Prop
  | .revoke client keys _, c, key => c = client ∧ key ∈ keys
  | _, _, _ => False

structure Inv (new : Authorizer) (s : State) : Prop where
  replaced : s.sweep = .replace ∨ s.authorizer = new
  swept : ∀ c ∈ s.registered, ∀ key ∈ s.channels c, Allows new (s.sessions c) key ∨
    s.sweep.ahead c = true ∨ s.sweep.due c key
  decided : ∀ c ∈ s.calls, c.pc = .add false → Allows new (s.sessions c.session) c.sub.channel

theorem allows_of_checkSubscribeACL {x : Session} {sub : Request}
    (h : checkSubscribeACL cfg x sub = .ok ()) : Allows cfg.authorizer x sub.channel := by
  unfold checkSubscribeACL at h
  split at h
  · cases h
  · split at h
    · cases h
    · split_ifs at h with hdenied
      simpa [Allows] using hdenied

theorem Inv.sweepStep {a : Action} (h : Inv new s) (hstep : sweepStep new s a = some t) :
    Inv new t := by
  obtain ⟨authorizer, sessions, registered, channels, sweep, calls⟩ := s
  cases a with
  | replace =>
    simp only [ReplaceRules.sweepStep] at hstep
    split_ifs at hstep
    cases hstep
    exact ⟨.inr rfl, fun c _ key _ => .inr (.inl rfl), h.decided⟩
  | list order =>
    simp only [ReplaceRules.sweepStep] at hstep
    split_ifs at hstep with hlist
    cases hstep
    obtain ⟨rfl, rfl⟩ := hlist
    refine ⟨h.replaced.imp nofun id, fun c hc key _ => .inr (.inl ?_), h.decided⟩
    simpa [Sweep.ahead] using hc
  | session order =>
    cases sweep with
    | sessions todo =>
      obtain rfl : authorizer = new := h.replaced.resolve_left nofun
      cases todo with
      | nil =>
        cases hstep
        refine ⟨.inr rfl, fun c hc key hkey => ?_, h.decided⟩
        exact (h.swept c hc key hkey).imp id (fun hr => by simp [Sweep.ahead, Sweep.due] at hr)
      | cons d todo =>
        simp only [ReplaceRules.sweepStep] at hstep
        split_ifs at hstep with horder
        cases hstep
        refine ⟨.inr rfl, fun c hc key hkey => ?_, h.decided⟩
        by_cases hallows : Allows authorizer (sessions c) key
        · exact .inl hallows
        · rcases h.swept c hc key hkey with hr | hr | hr
          · exact absurd hr hallows
          · by_cases hd : c = d
            · subst hd
              have hlisted : key ∈ order := by rwa [← List.mem_toFinset, horder]
              refine .inr (.inr ⟨rfl, List.mem_filter.mpr ⟨hlisted, ?_⟩⟩)
              simpa [Allows] using hallows
            · refine .inr (.inl ?_)
              simpa [Sweep.ahead, Ne.symm hd] using hr
          · cases hr
    | _ => cases hstep
  | revoke =>
    cases sweep with
    | revoke d keys todo =>
      obtain rfl : authorizer = new := h.replaced.resolve_left nofun
      cases keys with
      | nil =>
        cases hstep
        refine ⟨.inr rfl, fun c hc key hkey => ?_, h.decided⟩
        rcases h.swept c hc key hkey with hr | hr | ⟨-, hr⟩
        · exact .inl hr
        · exact .inr (.inl hr)
        · cases hr
      | cons first keys =>
        cases hstep
        refine ⟨.inr rfl, fun c hc key hkey => ?_, h.decided⟩
        have hkept : key ∈ channels c ∧ (c = d → key ≠ first) := by
          by_cases hd : c = d
          · subst hd
            simp only [removeSubscription, Function.update_self, Finset.mem_erase] at hkey
            exact ⟨hkey.2, fun _ => hkey.1⟩
          · simp only [removeSubscription, Function.update_of_ne hd] at hkey
            exact ⟨hkey, fun heq => absurd heq hd⟩
        rcases h.swept c hc key hkept.1 with hr | hr | ⟨hd, hr⟩
        · exact .inl hr
        · exact .inr (.inl hr)
        · exact .inr (.inr ⟨hd, (List.mem_cons.mp hr).resolve_left (hkept.2 hd)⟩)
    | _ => cases hstep
  | decide k | add k => cases hstep

theorem Inv.decided_set {k : Nat} {d : Call} (h : Inv new s)
    (hd : d.pc = .add false → Allows new (s.sessions d.session) d.sub.channel) :
    ∀ c ∈ s.calls.set k d, c.pc = .add false → Allows new (s.sessions c.session) c.sub.channel :=
  List.forall_mem_set h.decided hd

theorem Inv.step {a : Action} (h : Inv new s) (hin : InTime s a)
    (hstep : step cfg new s a = some t) : Inv new t := by
  cases a with
  | decide k =>
    obtain ⟨c, hk, hstep⟩ := Option.bind_eq_some_iff.mp hstep
    split_ifs at hstep
    cases hstep
    refine ⟨h.replaced, h.swept, h.decided_set fun hpc => ?_⟩
    simp only [ReplaceRules.decided] at hpc
    split at hpc
    · next hacl =>
      have hreplaced : s.sweep ≠ .replace := by simpa using hpc
      have hallows := allows_of_checkSubscribeACL hacl
      rwa [h.replaced.resolve_left hreplaced] at hallows
    · cases hpc
  | add k =>
    obtain ⟨c, hk, hstep⟩ := Option.bind_eq_some_iff.mp hstep
    split at hstep
    · next old hpc =>
      cases hstep
      refine ⟨h.replaced, fun x hx key hkey => ?_, h.decided_set nofun⟩
      have hnew : key ∈ s.channels x ∨ x = c.session ∧ key = c.sub.channel := by
        simp only [added, addSubscription] at hkey
        split_ifs at hkey
        · exact .inl hkey
        · by_cases hc : x = c.session
          · subst hc
            rw [Function.update_self, Finset.mem_insert] at hkey
            exact hkey.symm.imp id fun heq => ⟨rfl, heq⟩
          · rw [Function.update_of_ne hc] at hkey
            exact .inl hkey
      rcases hnew with hkey | ⟨rfl, rfl⟩
      · exact h.swept x hx key hkey
      · cases old with
        | true => exact .inr (.inl (hin c hk hpc))
        | false => exact .inl (h.decided c (List.mem_of_getElem? hk) hpc)
    · cases hstep
  | replace => exact h.sweepStep (a := .replace) hstep
  | list order => exact h.sweepStep (a := .list order) hstep
  | session order => exact h.sweepStep (a := .session order) hstep
  | revoke => exact h.sweepStep (a := .revoke) hstep

/-- Once `ReplaceRules` and all requests have returned, no session in the hub is subscribed to a
key that the new table denies its user. -/
theorem replaced_rules_revoke {s₀ : State} {acts : List Action} (hstart : s₀.sweep = .replace)
    (hcalls : ∀ c ∈ s₀.calls, c.pc ≠ .add false) (hrun : run cfg new s₀ acts = some s)
    (hin : Transition.Along (step cfg new) InTime s₀ acts) (hreturned : s.sweep = .returned) :
    ∀ c ∈ s.registered, ∀ key ∈ s.channels c, Allows new (s.sessions c) key := by
  have hinv : Inv new s := by
    refine Transition.invariant_along ?_ (fun s a t h hin hstep => h.step hin hstep) hrun hin
    exact ⟨.inl hstart, fun c _ key _ => .inr (.inl (by rw [hstart]; rfl)),
      fun c hc hpc => absurd hpc (hcalls c hc)⟩
  intro c hc key hkey
  have hswept := hinv.swept c hc key hkey
  rw [hreturned] at hswept
  exact hswept.resolve_right (by simp [Sweep.ahead, Sweep.due])

instance (s : State) : (a : Action) → Decidable (InTime s a)
  | .add k => inferInstanceAs (Decidable (∀ c ∈ s.calls[k]?, _ → _ = true))
  | .replace | .list _ | .session _ | .revoke | .decide _ => isTrue trivial

def denyChat : Authorizer where
  base := Channel.defaultChannelPolicy
  rules := [{
    raw := "chat"
    pattern := ⟨.exact, [['c', 'h', 'a', 't']]⟩
    compiled := rfl
    denyAll := true
    allowSubscribe := compileAllowList none
    allowPublish := compileAllowList none
    allowSurvey := compileAllowList none
    surveySet := false
    effects := ⟨none, none, none, none, none, none, none, none, none, none, none, none, none⟩ }]

def openConfig : Config :=
  ⟨true, "", 0, ⟨Channel.defaultChannelPolicy, []⟩, rfl⟩

/-- One session, whose request for `chat` finds a table without rules. -/
def oneRequest : State where
  authorizer := openConfig.authorizer
  sessions := fun _ => Session.newClient "s" ⟨0, 0, .protobuf⟩
  registered := {0}
  channels := fun _ => ∅
  sweep := .replace
  calls := [⟨0, ⟨"chat", false, "", true, .ok,
    .ok, false⟩, .decide⟩]

def revokedRun : List Action :=
  [.decide 0, .replace, .list [0], .add 0, .session ["chat"], .revoke, .revoke, .session []]

theorem replaced_rules_revoke_chat :
    ∃ s, run openConfig denyChat oneRequest revokedRun = some s ∧
      ∀ c ∈ s.registered, ∀ key ∈ s.channels c, Allows denyChat (s.sessions c) key :=
  ⟨_, rfl, replaced_rules_revoke rfl (by decide)
    (rfl : run openConfig denyChat oneRequest revokedRun = _) (by decide) rfl⟩

/-- The old table allows the request, and it adds `chat` after the sweep has looked. -/
theorem replaced_rules_miss :
    ∃ s, run openConfig denyChat oneRequest [.decide 0, .replace, .list [0], .session [],
        .revoke, .session [], .add 0] = some s ∧ s.sweep = .returned ∧
      s.calls.map Call.pc = [.returned] ∧ 0 ∈ s.registered ∧ "chat" ∈ s.channels 0 ∧
      ¬ Allows denyChat (s.sessions 0) "chat" :=
  ⟨_, rfl, rfl, rfl, by decide, by decide, fun h => Bool.false_ne_true h⟩

end MessageLoop.ReplaceRules
