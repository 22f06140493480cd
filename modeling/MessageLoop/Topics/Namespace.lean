import MessageLoop.Lib.PrefixCode
import MessageLoop.Topics.Channels
import Mathlib.Data.List.TakeWhile

/-!
Namespaced channels (`pkg/topics/namespace.go`): the grammar `namespace:topic`, and that a pattern
of one namespace matches no channel of another.
-/

namespace MessageLoop.Topics

open List

inductive NamespaceError where
  | badNamespace
  | badChannel
  deriving DecidableEq, Repr

def namespaceMaxLen : Nat := 32

/-- The characters allowed are single bytes, so the length in bytes is their number. -/
def validNamespace (ns : String) : Bool :=
  let cs := ns.toList
  cs ≠ [] && cs.length ≤ namespaceMaxLen &&
    cs.all (fun c => ('a' ≤ c && c ≤ 'z') || ('0' ≤ c && c ≤ '9') || c = '-') &&
    cs.head? ≠ some '-' && cs.getLast? ≠ some '-'

def splitNamespace (channel : String) : Option (String × String) :=
  match channel.toList.dropWhile (· ≠ ':') with
  | [] => none
  | _ :: topic =>
    if ':' ∈ topic then none
    else some (String.ofList (channel.toList.takeWhile (· ≠ ':')), String.ofList topic)

def validateChannel (channel : String) : Except NamespaceError Unit :=
  match splitNamespace channel with
  | none => .error .badChannel
  | some (ns, topic) =>
    if !validNamespace ns || !validTopic topic then .error .badChannel else .ok ()

def namespaceOf (channel : String) : Except NamespaceError String :=
  match splitNamespace channel with
  | none => .error .badChannel
  | some (ns, _) => if !validNamespace ns then .error .badChannel else .ok ns

instance (channel ns : String) : Decidable (namespaceOf channel = .ok ns) :=
  match namespaceOf channel with
  | .error _ => isFalse nofun
  | .ok found => decidable_of_iff (found = ns) (by simp)

instance (channel : String) : Decidable (validateChannel channel = .ok ()) :=
  match validateChannel channel with
  | .error _ => isFalse nofun
  | .ok () => isTrue rfl

variable {channel key ns ns' topic : String}

theorem splitNamespace_eq_some (h : splitNamespace channel = some (ns, topic)) :
    channel.toList = ns.toList ++ ':' :: topic.toList ∧ ':' ∉ ns.toList ∧ ':' ∉ topic.toList := by
  unfold splitNamespace at h
  cases hdrop : channel.toList.dropWhile (· ≠ ':') with
  | nil =>
    rw [hdrop] at h
    cases h
  | cons c rest =>
    rw [hdrop] at h
    have hc : c = ':' := by
      have hhead := head?_dropWhile_not (· ≠ ':') channel.toList
      rw [hdrop] at hhead
      simpa using hhead
    by_cases hmem : ':' ∈ rest
    · simp [hmem] at h
    · simp only [hmem, if_false, Option.some.injEq, Prod.mk.injEq] at h
      obtain ⟨rfl, rfl⟩ := h
      refine ⟨?_, ?_, by simpa using hmem⟩
      · have hsplit := takeWhile_append_dropWhile (p := (· ≠ ':')) (l := channel.toList)
        rw [hdrop, hc] at hsplit
        simpa using hsplit.symm
      · intro hns
        have := mem_takeWhile_imp (by simpa using hns : ':' ∈ channel.toList.takeWhile (· ≠ ':'))
        simp at this

theorem namespaceOf_eq_ok (h : namespaceOf channel = .ok ns) :
    ∃ topic, splitNamespace channel = some (ns, topic) ∧ validNamespace ns = true := by
  unfold namespaceOf at h
  cases hsplit : splitNamespace channel with
  | none => simp [hsplit] at h
  | some parts =>
    rw [hsplit] at h
    cases hvalid : validNamespace parts.1 with
    | false => simp [hvalid] at h
    | true =>
      simp only [hvalid, Bool.not_true, Bool.false_eq_true, if_false, Except.ok.injEq] at h
      subst h
      exact ⟨parts.2, rfl, hvalid⟩

section Keys
variable {channel' : String} (hchannel : namespaceOf channel = .ok ns)
  (hchannel' : namespaceOf channel' = .ok ns')
include hchannel

theorem namespaceOf_toList : ∃ topic, channel.toList = ns.toList ++ ':' :: topic ∧
    ':' ∉ ns.toList ∧ ':' ∉ topic := by
  obtain ⟨topic, hsplit, -⟩ := namespaceOf_eq_ok hchannel
  exact ⟨topic.toList, splitNamespace_eq_some hsplit⟩

include hchannel'

/-- A channel has one delimiter, so it can be cut off the end of a key. -/
theorem append_channel_inj {before before' : List Char}
    (h : before ++ ':' :: channel.toList = before' ++ ':' :: channel'.toList) :
    before = before' ∧ channel = channel' := by
  obtain ⟨topic, hlist, hns, htopic⟩ := namespaceOf_toList hchannel
  obtain ⟨topic', hlist', hns', htopic'⟩ := namespaceOf_toList hchannel'
  rw [hlist, hlist', ← cons_append, ← cons_append, ← append_assoc,
    ← append_assoc] at h
  obtain ⟨hfront, rfl⟩ := PrefixCode.append_last_stop_inj htopic htopic' h
  obtain ⟨rfl, hnamespace⟩ := PrefixCode.append_last_stop_inj hns hns' hfront
  exact ⟨rfl, String.toList_inj.mp (by rw [hlist, hlist', hnamespace])⟩

theorem channel_append_inj {after after' : List Char}
    (h : channel.toList ++ ':' :: after = channel'.toList ++ ':' :: after') :
    channel = channel' ∧ after = after' := by
  obtain ⟨topic, hlist, hns, htopic⟩ := namespaceOf_toList hchannel
  obtain ⟨topic', hlist', hns', htopic'⟩ := namespaceOf_toList hchannel'
  rw [hlist, hlist', append_assoc, append_assoc] at h
  obtain ⟨hnamespace, hrest⟩ := PrefixCode.append_stop_inj hns hns' h
  obtain ⟨rfl, rfl⟩ := PrefixCode.append_stop_inj htopic htopic' hrest
  exact ⟨String.toList_inj.mp (by rw [hlist, hlist', hnamespace]), rfl⟩

end Keys

theorem namespaceOf_of_validateChannel (h : validateChannel channel = .ok ()) :
    ∃ ns, namespaceOf channel = .ok ns := by
  unfold validateChannel at h
  cases hsplit : splitNamespace channel with
  | none => simp [hsplit] at h
  | some parts =>
    rw [hsplit] at h
    cases hvalid : validNamespace parts.1 with
    | false => simp [hvalid] at h
    | true => exact ⟨parts.1, by simp [namespaceOf, hsplit, hvalid]⟩

theorem word_of_validNamespace (h : validNamespace ns = true) : Word ns.toList := by
  simp only [validNamespace, Bool.and_eq_true, decide_eq_true_eq, all_eq_true] at h
  obtain ⟨⟨⟨⟨hne, -⟩, hchars⟩, -⟩, -⟩ := h
  refine ⟨hne, fun c hc => ?_⟩
  have hchar := hchars c hc
  refine ⟨?_, ?_, ?_⟩ <;> rintro rfl <;> exact absurd hchar (by decide)

theorem splitSegments_of_splitNamespace (h : splitNamespace channel = some (ns, topic))
    (hvalid : validNamespace ns = true) :
    splitSegments channel = ns.toList :: splitSegments topic := by
  obtain ⟨hchannel, -, -⟩ := splitNamespace_eq_some h
  have hns : ∀ c ∈ ns.toList, decide (c = '.' ∨ c = ':') = false := by
    intro c hc
    obtain ⟨hdot, hcolon, -⟩ := (word_of_validNamespace hvalid).2 c hc
    simp [hdot, hcolon]
  rw [splitSegments, hchannel, splitOnP_append_cons_of_forall_mem hns ':' (by decide)]
  rfl

theorem splitSegments_of_namespaceOf (h : namespaceOf channel = .ok ns) :
    ∃ rest, splitSegments channel = ns.toList :: rest := by
  obtain ⟨topic, hsplit, hvalid⟩ := namespaceOf_eq_ok h
  exact ⟨splitSegments topic, splitSegments_of_splitNamespace hsplit hvalid⟩

/-- Matching does not cross namespaces: both delimiters separate segments, but the first segment of
either side is its namespace. -/
theorem namespaceOf_eq_of_match (hkey : namespaceOf key = .ok ns)
    (hchannel : namespaceOf channel = .ok ns') (hmatch : matchCriteria key channel = true) :
    ns' = ns := by
  obtain ⟨keyRest, hkeySegs⟩ := splitSegments_of_namespaceOf hkey
  obtain ⟨chanRest, hchanSegs⟩ := splitSegments_of_namespaceOf hchannel
  obtain ⟨-, -, hvalid⟩ := namespaceOf_eq_ok hkey
  have hfull : [] ∉ splitSegments channel := by
    intro hempty
    rw [matchCriteria_of_empty_segment hempty] at hmatch
    cases hmatch
  rw [matchCriteria_eq hfull, hkeySegs, hchanSegs, ← singleton_append] at hmatch
  obtain ⟨rest, hrest, -⟩ :=
    (matchPath_append (by simpa using word_of_validNamespace hvalid)).mp hmatch
  exact String.toList_inj.mp (cons.inj hrest).1

end MessageLoop.Topics
