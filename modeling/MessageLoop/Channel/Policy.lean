import Mathlib.Init

/-!
Channel policies and their overlay (`internal/channel/channel_policy.go`). Durations are in
nanoseconds; the parsing of their texts is left out.
-/

namespace MessageLoop.Channel

structure ChannelPolicy where
  history : Bool
  historySize : Int
  historyTTL : Int
  presence : Bool
  recover : Bool
  survey : Bool
  transientOnly : Bool
  recoverLimit : Int
  maxSurveySubscribers : Int
  maxSurveyTimeout : Int
  legacyPresenceChannel : Bool
  presenceSnapshotLimit : Int
  batching : Option Bool
  deriving DecidableEq, Repr

def defaultChannelPolicy : ChannelPolicy where
  history := true
  historySize := 0
  historyTTL := 0
  presence := true
  recover := true
  survey := false
  transientOnly := false
  recoverLimit := 0
  maxSurveySubscribers := 256
  maxSurveyTimeout := 5 * 1000000000
  legacyPresenceChannel := false
  presenceSnapshotLimit := 256
  batching := none

structure CompiledPolicySpec where
  history : Option Bool
  historySize : Option Int
  historyTTL : Option Int
  presence : Option Bool
  recover : Option Bool
  survey : Option Bool
  transientOnly : Option Bool
  recoverLimit : Option Int
  maxSurveySubscribers : Option Int
  maxSurveyTimeout : Option Int
  legacyPresenceChannel : Option Bool
  presenceSnapshotLimit : Option Int
  batching : Option Bool
  deriving DecidableEq, Repr

def CompiledPolicySpec.empty : CompiledPolicySpec :=
  ⟨none, none, none, none, none, none, none, none, none, none, none, none, none⟩

def overlay (pol : ChannelPolicy) (spec : CompiledPolicySpec) : ChannelPolicy where
  history := spec.history.getD pol.history
  historySize := spec.historySize.getD pol.historySize
  historyTTL := spec.historyTTL.getD pol.historyTTL
  presence := spec.presence.getD pol.presence
  recover := spec.recover.getD pol.recover
  survey := spec.survey.getD pol.survey
  transientOnly := spec.transientOnly.getD pol.transientOnly
  recoverLimit := spec.recoverLimit.getD pol.recoverLimit
  maxSurveySubscribers := spec.maxSurveySubscribers.getD pol.maxSurveySubscribers
  maxSurveyTimeout := spec.maxSurveyTimeout.getD pol.maxSurveyTimeout
  legacyPresenceChannel := spec.legacyPresenceChannel.getD pol.legacyPresenceChannel
  presenceSnapshotLimit := spec.presenceSnapshotLimit.getD pol.presenceSnapshotLimit
  batching := spec.batching.or pol.batching

end MessageLoop.Channel
