import Mathlib.Data.List.Infix

/-! Topic structure, pattern matching and the compiled interest of a subscription key
(`pkg/topics/matcher.go`, `internal/channel/interest.go`). Segments are character lists. -/

namespace MessageLoop.Topics

open List

abbrev Segment := List Char

def wildcard : Segment := ['*']

def multiWildcard : Segment := ['*', '*']

/-- Both `.` and `:` separate segments; consecutive delimiters yield empty segments. -/
def splitSegments (s : String) : List Segment :=
  s.toList.splitOnP fun c => c = '.' ∨ c = ':'

theorem splitSegments_ne_nil (s : String) : splitSegments s ≠ [] :=
  splitOnP_ne_nil _ _

def isWildcard (ch : String) : Bool :=
  decide ('*' ∈ ch.toList)

/-- No segment is empty, and `**` occurs only as the whole last segment. -/
def validSegments : List Segment → Bool
  | [] => true
  | [last] => last ≠ [] && (!decide (multiWildcard <:+: last) || last = multiWildcard)
  | seg :: rest => seg ≠ [] && !decide (multiWildcard <:+: seg) && validSegments rest

def validTopic (topic : String) : Bool :=
  validSegments (splitSegments topic)

inductive TopicError where
  | badTopic
  | patternNotRoutable
  deriving DecidableEq, Repr

def matchSegments (pattern topic : List Segment) : Bool :=
  pattern.length = topic.length &&
    (topic.zip pattern).all fun st => st.1 = st.2 || st.2 = wildcard

def matchCriteria (pattern topic : String) : Bool :=
  let patternConstituents := splitSegments pattern
  let topicConstituents := splitSegments topic
  if topicConstituents.any (· = []) then false
  else if patternConstituents.getLast? = some multiWildcard then
    let leading := patternConstituents.dropLast
    if topicConstituents.length < leading.length then false
    else matchSegments leading (topicConstituents.take leading.length)
  else matchSegments patternConstituents topicConstituents

/-- The routable form of one subscription key. Unset components are empty. -/
structure CompiledInterest where
  exact : String
  pattern : String
  alsoExact : String
  deriving DecidableEq, Repr

def joinSegments (sep : Char) (segs : List Segment) : Segment :=
  (segs.intersperse [sep]).flatten

def joinPrefix (key : String) (prefixSegs : List Segment) : Segment × Segment :=
  if ':' ∉ key.toList then (joinSegments '.' prefixSegs, ['.'])
  else match prefixSegs with
    | [] => ([], ['.'])
    | [ns] => (ns, [':'])
    | ns :: rest => (ns ++ ':' :: joinSegments '.' rest, ['.'])

def compileInterest (key : String) : Except TopicError CompiledInterest :=
  if !validTopic key then .error .badTopic
  else if !isWildcard key then .ok ⟨key, "", ""⟩
  else
    let segments := splitSegments key
    let last := segments.getLast?.getD []
    let leading := segments.dropLast
    let (joined, sep) := joinPrefix key leading
    if last ≠ wildcard ∧ last ≠ multiWildcard then .error .patternNotRoutable
    else if leading.any (fun seg => decide ('*' ∈ seg)) then .error .patternNotRoutable
    else if joined = [] then .error .patternNotRoutable
    else .ok ⟨"", String.ofList (joined ++ sep ++ wildcard),
      if last = multiWildcard then String.ofList joined else ""⟩

/-- Matching by recursion on the pattern: a last `**` takes what is left of the topic. -/
def matchPath : List Segment → List Segment → Bool
  | [], topic => topic.isEmpty
  | seg :: pattern, topic =>
    (seg = multiWildcard && pattern.isEmpty) ||
      match topic with
      | [] => false
      | word :: topic => (seg = word || seg = wildcard) && matchPath pattern topic

theorem matchSegments_cons (seg word : Segment) (pattern topic : List Segment) :
    matchSegments (seg :: pattern) (word :: topic) =
      ((seg = word || seg = wildcard) && matchSegments pattern topic) := by
  simp only [matchSegments, length_cons, Nat.add_right_cancel_iff, zip_cons_cons,
    all_cons, eq_comm (a := word)]
  exact Bool.and_left_comm ..

theorem matchPath_eq (pattern topic : List Segment) :
    matchPath pattern topic =
      if pattern.getLast? = some multiWildcard then
        if topic.length < pattern.dropLast.length then false
        else matchSegments pattern.dropLast (topic.take pattern.dropLast.length)
      else matchSegments pattern topic := by
  induction pattern generalizing topic with
  | nil => cases topic <;> simp [matchPath, matchSegments]
  | cons seg pattern ih =>
    cases pattern with
    | nil =>
      by_cases hmulti : seg = multiWildcard
      · simp [matchPath, hmulti, matchSegments]
      · cases topic with
        | nil => simp [matchPath, hmulti, matchSegments]
        | cons word topic =>
          rw [if_neg (by simpa using hmulti), matchSegments_cons]
          cases topic <;> simp [matchPath, hmulti, matchSegments]
    | cons next pattern =>
      cases topic with
      | nil => simp [matchPath, matchSegments]
      | cons word topic =>
        rw [matchPath]
        simp only [isEmpty_cons, Bool.and_false, Bool.false_or, ih topic,
          getLast?_cons_cons, dropLast_cons_cons, length_cons,
          Nat.add_lt_add_iff_right, take_succ_cons, matchSegments_cons]
        split_ifs <;> simp

theorem matchCriteria_eq {pattern topic : String} (htopic : [] ∉ splitSegments topic) :
    matchCriteria pattern topic = matchPath (splitSegments pattern) (splitSegments topic) := by
  rw [matchPath_eq]
  have hany : (splitSegments topic).any (· = []) = false := by
    rw [any_eq_false]
    intro seg hseg hnil
    exact htopic (of_decide_eq_true hnil ▸ hseg)
  simp only [matchCriteria, hany, Bool.false_eq_true, if_false]

theorem matchCriteria_of_empty_segment {pattern topic : String}
    (htopic : [] ∈ splitSegments topic) : matchCriteria pattern topic = false := by
  have hany : (splitSegments topic).any (· = []) = true :=
    any_eq_true.mpr ⟨[], htopic, by decide⟩
  simp only [matchCriteria, hany, if_true]

example : matchCriteria "im.**" "im" = true := by decide
example : matchCriteria "im.*" "im.a.b" = false := by decide

end MessageLoop.Topics
