import MessageLoop.Authz.KeyLanguage
import MessageLoop.Lib.Glob
import MessageLoop.Redis.LiveSubs
import MessageLoop.Topics.Namespace

/-!
Which publications reach a node: the Redis names compiled from a subscription key
(`internal/channel/interest.go`) against the channels that the key covers.
-/

namespace MessageLoop.LiveSubs

open Topics List
open Authz (CompiledRulePattern)
open Glob (globMatch Plain)

variable {channel key : String} {ci : CompiledInterest}

/-- Whether Redis hands a message on a channel to a connection that is subscribed to a name: names
with a `*` are subscribed with PSUBSCRIBE, the others with SUBSCRIBE. -/
def delivers (name channel : String) : Bool :=
  if isWildcard name then globMatch name.toList channel.toList else name = channel

def Holds (subscribed wcCounts : Multiset String) (key : String) : Prop :=
  if isWildcard key then key ∈ wcCounts else key ∈ subscribed

theorem joinSegments_append {front back : List Segment} (hfront : front ≠ []) (hback : back ≠ []) :
    joinSegments '.' (front ++ back) = joinSegments '.' front ++ '.' :: joinSegments '.' back := by
  show intercalate _ _ = intercalate _ _ ++ '.' :: intercalate _ _
  induction front with
  | nil => exact absurd rfl hfront
  | cons first front ih =>
    by_cases hnil : front = []
    · simp [hnil, intercalate_cons_of_ne_nil hback]
    · simp [intercalate_cons_of_ne_nil, hnil, ih hnil]

/-- A channel is its segments again, with a `:` behind the first. -/
theorem toList_of_validateChannel (h : validateChannel channel = .ok ()) :
    ∃ ns rest, splitSegments channel = ns :: rest ∧
      channel.toList = ns ++ ':' :: joinSegments '.' rest := by
  obtain ⟨ns, hns⟩ := namespaceOf_of_validateChannel h
  obtain ⟨topic, hsplit, hvalid⟩ := namespaceOf_eq_ok hns
  obtain ⟨hchannel, -, hcolon⟩ := splitNamespace_eq_some hsplit
  refine ⟨_, _, splitSegments_of_splitNamespace hsplit hvalid, ?_⟩
  rw [hchannel, splitSegments, splitOnP_eq_splitOn hcolon]
  exact congrArg _ (congrArg _ (intercalate_splitOn '.').symm)

theorem eq_of_segments (hkey : validateChannel key = .ok ())
    (hchannel : validateChannel channel = .ok ())
    (h : splitSegments channel = splitSegments key) : channel = key := by
  obtain ⟨ns, rest, hsegs, htext⟩ := toList_of_validateChannel hkey
  obtain ⟨ns', rest', hsegs', htext'⟩ := toList_of_validateChannel hchannel
  rw [hsegs, hsegs'] at h
  obtain ⟨rfl, rfl⟩ := cons.inj h
  exact String.toList_inj.mp (htext'.trans htext.symm)

theorem mem_joinPrefix {segs : List Segment} {c : Char} (h : c ∈ (joinPrefix key segs).1) :
    c = '.' ∨ c = ':' ∨ ∃ seg ∈ segs, c ∈ seg := by
  unfold joinPrefix at h
  split at h
  · exact (mem_joinSegments h).imp_right .inr
  split at h
  · cases h
  · exact .inr (.inr ⟨_, mem_singleton_self _, h⟩)
  · rename_i ns rest _
    rcases (mem_append.mp h).imp_right mem_cons.mp with h | h | h
    · exact .inr (.inr ⟨ns, mem_cons_self, h⟩)
    · exact .inr (.inl h)
    · refine (mem_joinSegments h).imp_right fun ⟨seg, hseg, h⟩ => ?_
      exact .inr ⟨seg, mem_cons_of_mem ns hseg, h⟩

/-- A channel that begins with the literal segments of a key goes on behind their text and its
delimiter, or is that text. -/
theorem text_of_covered {leading rest : List Segment} (hkey : validateChannel key = .ok ())
    (hchannel : validateChannel channel = .ok ()) (hleading : leading ≠ [])
    (hcover : splitSegments channel = leading ++ rest) :
    ∃ d ∉ Glob.special, (joinPrefix key leading).2 = [d] ∧
      (rest = [] ∧ channel.toList = (joinPrefix key leading).1 ∨
        ∃ tail, channel.toList = (joinPrefix key leading).1 ++ [d] ++ tail) := by
  obtain ⟨_, _, -, hkeyText⟩ := toList_of_validateChannel hkey
  obtain ⟨ns, topic, hsegs, htext⟩ := toList_of_validateChannel hchannel
  obtain ⟨first, middle, rfl⟩ := exists_cons_of_ne_nil hleading
  obtain ⟨rfl, rfl⟩ : ns = first ∧ topic = middle ++ rest := by simpa using hsegs.symm.trans hcover
  have hcolon : ':' ∈ key.toList := by simp [hkeyText]
  rw [htext]
  cases middle with
  | nil => exact ⟨':', by decide, by simp [joinPrefix, hcolon]⟩
  | cons next middle =>
    refine ⟨'.', by decide, by simp [joinPrefix, hcolon], ?_⟩
    by_cases hrest : rest = []
    · simp [joinPrefix, hcolon, hrest]
    · rw [joinSegments_append (cons_ne_nil _ _) hrest]
      simp [joinPrefix, hcolon]

/-- What a key compiles to, against a channel that it covers. -/
theorem compiled_cases (hkey : validateChannel key = .ok ()) (hci : compileInterest key = .ok ci)
    (hchannel : validateChannel channel = .ok ()) (hconcrete : Concrete channel)
    (hmatch : matchCriteria key channel = true) :
    isWildcard key = false ∧ channel = key ∧ ci = ⟨key, "", ""⟩ ∨
      isWildcard key = true ∧ ci.exact = "" ∧ ∃ text d, d ∉ Glob.special ∧ '*' ∉ text ∧
        text ⊆ key.toList ∧ ci.pattern.toList = text ++ [d, '*'] ∧
        (channel = ci.alsoExact ∨ ∃ tail, channel.toList = text ++ [d] ++ tail) := by
  obtain ⟨p, hp, rfl⟩ := Authz.exists_of_compileInterest hci
  obtain ⟨-, hsegs, hwf⟩ := Authz.compilePattern_eq_ok hp
  have hwild := Authz.kind_eq_exact_iff hp
  rw [Authz.matchCriteria_iff hp hconcrete, CompiledRulePattern.Matches] at hmatch
  have hstar : '*' ∉ (joinPrefix key p.segments).1 := by
    intro hmem
    rcases mem_joinPrefix hmem with h | h | ⟨seg, hseg, hc⟩
    · exact absurd h (by decide)
    · exact absurd h (by decide)
    · exact ((hwf.words seg hseg).2 '*' hc).2.2 rfl
  have hsub : (joinPrefix key p.segments).1 ⊆ key.toList := by
    obtain ⟨d, -, -, ⟨-, htext⟩ | ⟨tail, htext⟩⟩ := text_of_covered hkey hkey hwf.nonempty hsegs <;>
      simp [htext]
  unfold CompiledRulePattern.interest
  cases hkind : p.kind with
  | exact =>
    rw [hkind] at hsegs hmatch
    exact .inl ⟨hwild.mp hkind,
      eq_of_segments hkey hchannel (hmatch.trans (hsegs.trans (append_nil _)).symm), rfl⟩
  | star =>
    rw [hkind] at hmatch
    obtain ⟨word, hcover⟩ := hmatch
    obtain ⟨d, hd, hdelim, htext⟩ := text_of_covered hkey hchannel hwf.nonempty hcover
    exact .inr ⟨by simpa [hkind] using hwild, rfl, _, d, hd, hstar, hsub,
      by simp [hdelim, wildcard], .inr (htext.resolve_left (by simp))⟩
  | dstar =>
    rw [hkind] at hmatch
    obtain ⟨rest, hcover⟩ := hmatch
    obtain ⟨d, hd, hdelim, htext⟩ := text_of_covered hkey hchannel hwf.nonempty hcover.symm
    refine .inr ⟨by simpa [hkind] using hwild, rfl, _, d, hd, hstar, hsub,
      by simp [hdelim, wildcard], htext.imp_left fun h => ?_⟩
    show channel = String.ofList (joinPrefix key p.segments).1
    rw [← h.2, String.ofList_toList]

theorem ne_empty_of_validateChannel (h : validateChannel channel = .ok ()) : channel ≠ "" := by
  rintro rfl
  cases h

theorem isWildcard_append (text name : String) :
    isWildcard (text ++ name) = (isWildcard text || isWildcard name) := by
  simp [isWildcard]

theorem isWildcard_of_plain {text : String} (h : ∀ c ∈ text.toList, Plain c) :
    isWildcard text = false :=
  decide_eq_false fun hstar => (h '*' hstar).1 rfl

/-- One of the compiled names reaches the channel. -/
def Reaches (ci : CompiledInterest) (channel : String) : Prop :=
  channel = ci.exact ∨ channel = ci.alsoExact ∨
    globMatch ci.pattern.toList channel.toList = true

instance : Decidable (Reaches ci channel) :=
  inferInstanceAs (Decidable (_ ∨ _ ∨ _))

section
variable (hkey : validateChannel key = .ok ()) (hci : compileInterest key = .ok ci)
variable (hchannel : validateChannel channel = .ok ()) (hconcrete : Concrete channel)
variable (hmatch : matchCriteria key channel = true)
include hkey hci hchannel hconcrete hmatch

theorem reaches_iff : Reaches ci channel ↔ isWildcard key = false ∨ channel = ci.alsoExact ∨
    globMatch ci.pattern.toList ci.pattern.toList.dropLast = true := by
  rcases compiled_cases hkey hci hchannel hconcrete hmatch with
    ⟨hliteral, rfl, rfl⟩ | ⟨hwild, hexact, text, d, hd, hstar, -, hpattern, htext⟩
  · simp [Reaches, hliteral]
  · have hne : channel ≠ ci.exact := hexact ▸ ne_empty_of_validateChannel hchannel
    simp only [Reaches, hne, hwild, Bool.true_eq_false, false_or]
    rcases htext with halso | ⟨tail, htext⟩
    · simp [halso]
    · rw [hpattern, htext, Glob.globMatch_open_append hd hstar]
      simp

theorem reaches_of_plain (hplain : ∀ c ∈ key.toList, c ≠ '[' ∧ c ≠ '\\') : Reaches ci channel := by
  rw [reaches_iff hkey hci hchannel hconcrete hmatch]
  rcases compiled_cases hkey hci hchannel hconcrete hmatch with
    ⟨hliteral, -, -⟩ | ⟨-, -, text, d, hd, hstar, hsub, hpattern, -⟩
  · exact .inl hliteral
  · have htext : ∀ c ∈ text ++ [d], Plain c := by
      refine forall_mem_snoc (fun c hc => ⟨ne_of_mem_of_not_mem hc hstar, hplain c (hsub hc)⟩) ?_
      simp only [Glob.special, mem_cons, not_or] at hd
      exact ⟨hd.1, hd.2.2.1, hd.2.2.2.2.1⟩
    rw [hpattern]
    exact .inr (.inr (by simpa using Glob.globMatch_append htext (Glob.globMatch_star [])))

/-- What the compiled names reach arrives at every node that holds the key, as long as the configured
name space of the live bus holds no character that Redis reads as part of a pattern. -/
theorem delivers_of_reaches (hreach : Reaches ci channel) {pubSubPrefix : String}
    {subscribed wcCounts : Multiset String} (hplain : ∀ c ∈ pubSubPrefix.toList, Plain c)
    (hheld : Holds subscribed wcCounts key) :
    ∃ name ∈ liveDesiredLocked pubSubPrefix subscribed wcCounts,
      delivers name (pubSubPrefix ++ channel) = true := by
  have hprefix := isWildcard_of_plain hplain
  have hne := ne_empty_of_validateChannel hchannel
  simp only [liveDesiredLocked, Finset.mem_union, Finset.mem_biUnion, Multiset.mem_toFinset,
    mem_toFinset]
  rcases compiled_cases hkey hci hchannel hconcrete hmatch with
    ⟨hliteral, rfl, rfl⟩ | ⟨hwild, hexact, text, d, -, -, -, hpattern, -⟩
  · rw [Holds, hliteral] at hheld
    refine ⟨pubSubPrefix ++ channel, .inl ⟨channel, hheld, by simp [exactNames, hci, hne]⟩, ?_⟩
    simp [delivers, isWildcard_append, hprefix, hliteral]
  · rw [Holds, hwild] at hheld
    rcases hreach with h | h | hglob
    · exact absurd (h.trans hexact) hne
    · refine ⟨pubSubPrefix ++ channel, .inr ⟨key, hheld, by simp [wildcardNames, hci, ← h, hne]⟩, ?_⟩
      simp [delivers, isWildcard_append, hprefix, hconcrete.1]
    · have hstar : isWildcard ci.pattern = true := by simp [isWildcard, hpattern]
      have hsome : ci.pattern ≠ "" := by
        intro hempty
        simp [hempty] at hpattern
      refine ⟨pubSubPrefix ++ ci.pattern, .inr ⟨key, hheld, by simp [wildcardNames, hci, hsome]⟩, ?_⟩
      simpa [delivers, isWildcard_append, hstar] using Glob.globMatch_append hplain hglob

end

/-- A channel that a key covers and that none of the names compiled from it reaches. -/
def Missed (key channel : String) : Prop :=
  ∃ ci, validateChannel key = .ok () ∧ compileInterest key = .ok ci ∧
    validateChannel channel = .ok () ∧ Concrete channel ∧ matchCriteria key channel = true ∧
    ¬ Reaches ci channel ∧
    ∀ name ∈ liveDesiredLocked "ml2:pubsub:" 0 {key},
      delivers name ("ml2:pubsub:" ++ channel) = false

end MessageLoop.LiveSubs
