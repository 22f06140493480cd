import MessageLoop.Channel.Policy
import MessageLoop.Topics.Channels

/-!
The authorizer (`internal/authz/authorizer.go`): the rule table, the decision for every action, and
the language of patterns behind the decision on a subscription.
-/

namespace MessageLoop.Authz

open Topics Channel

inductive PatternKind where
  | exact
  | star
  | dstar
  deriving DecidableEq, Repr

/-- `segments` are all segments of an exact pattern, else the literal segments before the
wildcard. -/
structure CompiledRulePattern where
  kind : PatternKind
  segments : List Segment
  deriving DecidableEq, Repr

inductive PatternError where
  | invalidTopic
  | wildcardNotFinal
  | innerWildcard
  | emptyLiteralPart
  deriving DecidableEq, Repr

def compilePattern (pattern : String) : Except PatternError CompiledRulePattern :=
  if !validTopic pattern then .error .invalidTopic
  else
    let segments := splitSegments pattern
    if !isWildcard pattern then .ok ⟨.exact, segments⟩
    else
      let last := segments.getLast?.getD []
      let leading := segments.dropLast
      if last ≠ wildcard ∧ last ≠ multiWildcard then .error .wildcardNotFinal
      else if leading.any (fun seg => decide ('*' ∈ seg)) then .error .innerWildcard
      else if leading = [] then .error .emptyLiteralPart
      else .ok ⟨if last = multiWildcard then .dstar else .star, leading⟩

def isPrefixOf (shorter longer : List Segment) : Bool :=
  shorter.isPrefixOf longer

def starIntersectsDStar (s d : List Segment) : Bool :=
  if isPrefixOf d s then true
  else if isPrefixOf s d then d.length = s.length + 1
  else false

def patternsIntersect (a b : CompiledRulePattern) : Bool :=
  match a.kind, b.kind with
  | .exact, .exact => a.segments = b.segments
  | .exact, .star => a.segments.length = b.segments.length + 1 && isPrefixOf b.segments a.segments
  | .exact, .dstar => isPrefixOf b.segments a.segments
  | .star, .exact => b.segments.length = a.segments.length + 1 && isPrefixOf a.segments b.segments
  | .star, .star => a.segments = b.segments
  | .star, .dstar => starIntersectsDStar a.segments b.segments
  | .dstar, .exact => isPrefixOf a.segments b.segments
  | .dstar, .star => starIntersectsDStar b.segments a.segments
  | .dstar, .dstar => isPrefixOf a.segments b.segments || isPrefixOf b.segments a.segments

section Rules

/-- A list that is not given does not constrain the action. `all` says that it has `*`. -/
structure AllowList where
  list : Option (List String)
  all : Bool
  all_eq : all = list.any (·.contains "*")

def compileAllowList (list : Option (List String)) : AllowList :=
  ⟨list, list.any (·.contains "*"), rfl⟩

structure CompiledRule where
  raw : String
  pattern : CompiledRulePattern
  compiled : compilePattern raw = .ok pattern
  denyAll : Bool
  allowSubscribe : AllowList
  allowPublish : AllowList
  allowSurvey : AllowList
  surveySet : Bool
  effects : CompiledPolicySpec

structure Authorizer where
  base : ChannelPolicy
  rules : List CompiledRule

end Rules

section Decide

inductive Action where
  | subscribePattern
  | publish
  | recover
  | presence
  | survey
  deriving DecidableEq, Repr

structure Principal where
  userID : String
  deriving DecidableEq, Repr

inductive Reason where
  | default
  | denyAll
  | allowList
  | effects
  | notRoutable
  | language
  deriving DecidableEq, Repr

structure Decision where
  allow : Bool
  reason : Reason
  effects : ChannelPolicy
  deriving DecidableEq, Repr

def ruleDenies (rule : CompiledRule) (allowed : AllowList) (p : Principal) : Bool :=
  if rule.denyAll then true
  else
    match allowed.list with
    | none => false
    | some list => if allowed.all then false else !list.contains p.userID

def effectsLocked (a : Authorizer) (channel : String) : ChannelPolicy :=
  let pol := a.rules.foldl (fun pol rule =>
    if matchCriteria rule.raw channel then overlay pol rule.effects else pol) a.base
  if pol.transientOnly then { pol with history := false, recover := false } else pol

def publishDenial (p : Principal) (channel : String) : List CompiledRule → Option Reason
  | [] => none
  | rule :: rules =>
    if !matchCriteria rule.raw channel then publishDenial p channel rules
    else if rule.denyAll then some .denyAll
    else if ruleDenies rule rule.allowPublish p then some .allowList
    else publishDenial p channel rules

structure SurveyFindings where
  denied : Option Reason
  allowed : Bool
  touched : Bool
  deriving DecidableEq, Repr

def surveyRule (p : Principal) (channel : String) (found : SurveyFindings) (rule : CompiledRule) :
    SurveyFindings :=
  if !matchCriteria rule.raw channel then found
  else
    let found := if rule.surveySet then { found with touched := true } else found
    let found := if rule.denyAll then { found with denied := some .denyAll } else found
    match rule.allowSurvey.list with
    | none => found
    | some list =>
      if rule.allowSurvey.all || list.contains p.userID then { found with allowed := true }
      else if found.denied = none then { found with denied := some .allowList }
      else found

def deniedAll (a : Authorizer) (channel : String) : Bool :=
  a.rules.any fun rule => rule.denyAll && matchCriteria rule.raw channel

/-- A read of an exact channel; `enabled` is the effect that switches it on. -/
def decideRead (a : Authorizer) (channel : String) (enabled : Bool) : Decision :=
  let effects := effectsLocked a channel
  if isWildcard channel then ⟨false, .default, effects⟩
  else if deniedAll a channel then ⟨false, .denyAll, effects⟩
  else if !enabled then ⟨false, .effects, effects⟩
  else ⟨true, .default, effects⟩

/-- A subscription is refused if its pattern meets that of a rule that denies it. -/
def decideSubscribe (a : Authorizer) (denies : CompiledRule → Bool) (channel : String) : Decision :=
  let effects := effectsLocked a channel
  match compilePattern channel with
  | .error _ => ⟨false, .notRoutable, effects⟩
  | .ok key =>
    if a.rules.any fun rule => denies rule && patternsIntersect key rule.pattern then
      ⟨false, .language, effects⟩
    else ⟨true, .default, effects⟩

def decide (a : Authorizer) (p : Principal) (action : Action) (channel : String) : Decision :=
  let effects := effectsLocked a channel
  match action with
  | .subscribePattern => decideSubscribe a (fun rule => ruleDenies rule rule.allowSubscribe p) channel
  | .publish =>
    match publishDenial p channel a.rules with
    | some reason => ⟨false, reason, effects⟩
    | none => ⟨true, .default, effects⟩
  | .survey =>
    let found := a.rules.foldl (surveyRule p channel)
      ⟨none, false, a.base.survey ≠ defaultChannelPolicy.survey⟩
    if !effects.survey then ⟨false, if found.touched then .effects else .default, effects⟩
    else
      match found.denied with
      | some reason => ⟨false, reason, effects⟩
      | none => ⟨found.allowed, .default, effects⟩
  | .recover => decideRead a channel effects.recover
  | .presence => decideRead a channel effects.presence

def decideSubscribeSkipAllowLists (a : Authorizer) (channel : String) : Decision :=
  decideSubscribe a CompiledRule.denyAll channel

def patternsToRevoke (a : Authorizer) (p : Principal) (subscribed : List String) : List String :=
  subscribed.filter fun key => !(decide a p .subscribePattern key).allow

end Decide

end MessageLoop.Authz
