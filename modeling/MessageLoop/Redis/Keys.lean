import MessageLoop.Session.Hub

/-!
The keys of the Redis broker (`pkg/redisbroker/redis.go`, `pkg/redisbroker/presence_redis.go`).
They are joined with ":", which a channel has exactly once and a client ID may have anywhere.
-/

namespace MessageLoop.Redis

open Topics

inductive StreamKey where
  | stream (ch : String)
  | seqKey (ch : String)
  | retainedKey (ch : String)
  deriving DecidableEq, Repr

def StreamKey.channel : StreamKey → String
  | stream ch | seqKey ch | retainedKey ch => ch

def StreamKey.name (streamPrefix : String) : StreamKey → String
  | stream ch => streamPrefix ++ ch
  | seqKey ch => streamPrefix ++ "seq:" ++ ch
  | retainedKey ch => streamPrefix ++ "retained:" ++ ch

inductive PresenceKey where
  | indexKey (ch : String)
  | memberKey (ch clientID : String)
  | occupancyGenKey (ch : String)
  deriving DecidableEq, Repr

def PresenceKey.channel : PresenceKey → String
  | indexKey ch | memberKey ch _ | occupancyGenKey ch => ch

def PresenceKey.name (presencePrefix : String) : PresenceKey → String
  | indexKey ch => presencePrefix ++ "idx:" ++ ch
  | memberKey ch clientID => presencePrefix ++ "member:" ++ ch ++ ":" ++ clientID
  | occupancyGenKey ch => presencePrefix ++ "occ:gen:" ++ ch

/-- A name that begins with a kind has one delimiter more than a channel. -/
theorem channel_ne_tagged {ch ch' ns ns' tag : String} (hch : namespaceOf ch = .ok ns)
    (hch' : namespaceOf ch' = .ok ns') (htag : ':' ∈ tag.toList) : ch ≠ tag ++ ch' := by
  intro heq
  have hcount : ∀ {ch ns : String}, namespaceOf ch = .ok ns → ch.toList.count ':' = 1 := by
    intro ch ns h
    obtain ⟨topic, hlist, hns, htopic⟩ := namespaceOf_toList h
    simp [hlist, List.count_eq_zero_of_not_mem hns, List.count_eq_zero_of_not_mem htopic]
  have hboth := congrArg (·.toList.count ':') heq
  simp only [String.toList_append, List.count_append, hcount hch, hcount hch'] at hboth
  have hpos := List.count_pos_iff.mpr htag
  omega

theorem StreamKey.name_inj {k k' : StreamKey} {streamPrefix ns ns' : String}
    (hk : namespaceOf k.channel = .ok ns) (hk' : namespaceOf k'.channel = .ok ns')
    (heq : k.name streamPrefix = k'.name streamPrefix) : k = k' := by
  have hchars := congrArg String.toList heq
  cases k <;> cases k' <;> simp only [name, String.append_assoc, String.append_right_inj] at heq
  case stream.stream | seqKey.seqKey | retainedKey.retainedKey => rw [heq]
  case stream.seqKey | stream.retainedKey => exact absurd heq (channel_ne_tagged hk hk' (by decide))
  case seqKey.stream | retainedKey.stream =>
    exact absurd heq.symm (channel_ne_tagged hk' hk (by decide))
  case seqKey.retainedKey | retainedKey.seqKey => simp [name] at hchars

theorem PresenceKey.name_inj {k k' : PresenceKey} {presencePrefix ns ns' : String}
    (hk : namespaceOf k.channel = .ok ns) (hk' : namespaceOf k'.channel = .ok ns')
    (heq : k.name presencePrefix = k'.name presencePrefix) : k = k' := by
  have hchars := congrArg String.toList heq
  cases k <;> cases k' <;> simp [name] at hchars
  case indexKey.indexKey | occupancyGenKey.occupancyGenKey => rw [String.toList_inj.mp hchars]
  case memberKey.memberKey =>
    obtain ⟨hch, hid⟩ := channel_append_inj hk hk' hchars
    exact congrArg₂ memberKey hch (String.toList_inj.mp hid)

theorem keys_separate (streamPrefix presencePrefix : String) :
    (∀ k k' : StreamKey, validateChannel k.channel = .ok () → validateChannel k'.channel = .ok () →
      k ≠ k' → k.name streamPrefix ≠ k'.name streamPrefix) ∧
    (∀ k k' : PresenceKey, validateChannel k.channel = .ok () →
      validateChannel k'.channel = .ok () → k ≠ k' →
      k.name presencePrefix ≠ k'.name presencePrefix) ∧
    ∀ sid sid' ch ch' : String, validateChannel ch = .ok () → validateChannel ch' = .ok () →
      (sid, ch) ≠ (sid', ch') → Hub.wildcardKey sid ch ≠ Hub.wildcardKey sid' ch' := by
  refine ⟨?_, ?_, ?_⟩
  · intro k k' hk hk' hne heq
    obtain ⟨ns, hns⟩ := namespaceOf_of_validateChannel hk
    obtain ⟨ns', hns'⟩ := namespaceOf_of_validateChannel hk'
    exact hne (StreamKey.name_inj hns hns' heq)
  · intro k k' hk hk' hne heq
    obtain ⟨ns, hns⟩ := namespaceOf_of_validateChannel hk
    obtain ⟨ns', hns'⟩ := namespaceOf_of_validateChannel hk'
    exact hne (PresenceKey.name_inj hns hns' heq)
  · intro sid sid' ch ch' hch hch' hne heq
    obtain ⟨ns, hns⟩ := namespaceOf_of_validateChannel hch
    obtain ⟨ns', hns'⟩ := namespaceOf_of_validateChannel hch'
    obtain ⟨rfl, rfl⟩ := Hub.wildcardKey_inj_of_namespaceOf hns hns' heq
    exact hne rfl

end MessageLoop.Redis
