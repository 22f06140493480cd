import MessageLoop.Authz.Authorizer
import MessageLoop.Lib.Transition

/-!
A subscription is allowed exactly when every channel it can deliver is.

A pattern denotes the set of word lists it matches; two patterns meet when some concrete channel is
in both sets.
-/

namespace MessageLoop.Authz

open Topics List

section Language

def CompiledRulePattern.Matches (p : CompiledRulePattern) (path : List Segment) : Prop :=
  match p.kind with
  | .exact => path = p.segments
  | .star => ∃ word, path = p.segments ++ [word]
  | .dstar => p.segments <+: path

def PatternKind.tail : PatternKind → List Segment
  | .exact => []
  | .star => [wildcard]
  | .dstar => [multiWildcard]

structure CompiledRulePattern.WellFormed (p : CompiledRulePattern) : Prop where
  nonempty : p.segments ≠ []
  words : ∀ seg ∈ p.segments, Word seg

variable {pattern channel : String} {p a b : CompiledRulePattern} {path : List Segment}

theorem words_dropLast (hvalid : validTopic pattern = true)
    (hinner : ¬ ((splitSegments pattern).dropLast.any fun seg =>
      Decidable.decide ('*' ∈ seg)) = true) :
    ∀ seg ∈ (splitSegments pattern).dropLast, Word seg := by
  intro seg hseg
  have hmem := mem_of_mem_dropLast hseg
  refine ⟨ne_nil_of_validSegments hvalid hmem, fun c hc => ?_⟩
  obtain ⟨-, hdot, hcolon⟩ := mem_splitSegments hmem hc
  refine ⟨hdot, hcolon, ?_⟩
  rintro rfl
  simp only [any_eq_true, decide_eq_true_eq, not_exists, not_and] at hinner
  exact hinner seg hseg hc

theorem splitSegments_eq_dropLast (pattern : String) : splitSegments pattern =
    (splitSegments pattern).dropLast ++ [(splitSegments pattern).getLast?.getD []] := by
  have hne := splitSegments_ne_nil pattern
  rw [getLast?_eq_some_getLast hne, Option.getD_some, dropLast_append_getLast hne]

theorem compilePattern_eq_ok (h : compilePattern pattern = .ok p) :
    validTopic pattern = true ∧ splitSegments pattern = p.segments ++ p.kind.tail ∧
      p.WellFormed := by
  unfold compilePattern at h
  dsimp only at h
  have hvalid : validTopic pattern = true := by
    cases hv : validTopic pattern with
    | true => rfl
    | false => simp [hv] at h
  have hsplit := splitSegments_eq_dropLast pattern
  split_ifs at h with _ hwild hlast hinner hleading hmulti
  · obtain rfl := Except.ok.inj h
    have hwild : isWildcard pattern = false := by simpa using hwild
    exact ⟨hvalid, (append_nil _).symm,
      splitSegments_ne_nil pattern, words_of_concrete ⟨hwild, hvalid⟩⟩
  · obtain rfl := Except.ok.inj h
    rw [hmulti] at hsplit
    exact ⟨hvalid, hsplit, hleading, words_dropLast hvalid hinner⟩
  · obtain rfl := Except.ok.inj h
    have hsingle : (splitSegments pattern).getLast?.getD [] = wildcard := by tauto
    rw [hsingle] at hsplit
    exact ⟨hvalid, hsplit, hleading, words_dropLast hvalid hinner⟩

theorem compilePattern_concrete (h : Concrete channel) :
    compilePattern channel = .ok ⟨.exact, splitSegments channel⟩ := by
  unfold compilePattern
  simp [h.1, h.2]

theorem matchPath_iff (h : p.WellFormed) :
    matchPath (p.segments ++ p.kind.tail) path = true ↔ p.Matches path := by
  rw [matchPath_append h.words]
  unfold CompiledRulePattern.Matches
  cases p.kind with
  | exact => simp [PatternKind.tail, matchPath]
  | star =>
    simp only [PatternKind.tail]
    constructor
    · rintro ⟨rest, rfl, hmatch⟩
      cases rest with
      | nil => simp [matchPath, show wildcard ≠ multiWildcard by decide] at hmatch
      | cons word rest =>
        have hrest : rest = [] := by
          simpa [matchPath, show wildcard ≠ multiWildcard by decide] using hmatch
        exact ⟨word, by rw [hrest]⟩
    · rintro ⟨word, rfl⟩
      exact ⟨[word], rfl, by simp [matchPath]⟩
  | dstar =>
    simp only [PatternKind.tail]
    constructor
    · rintro ⟨rest, rfl, -⟩
      exact prefix_append _ _
    · rintro ⟨rest, rfl⟩
      exact ⟨rest, rfl, by simp [matchPath]⟩

theorem matchCriteria_iff (h : compilePattern pattern = .ok p) (hchannel : Concrete channel) :
    matchCriteria pattern channel = true ↔ p.Matches (splitSegments channel) := by
  obtain ⟨-, hsplit, hwf⟩ := compilePattern_eq_ok h
  rw [matchCriteria_eq (nil_notMem_of_valid hchannel.2), hsplit, matchPath_iff hwf]

end Language

section Intersection
variable {a b : CompiledRulePattern} {s d : List Segment}

def Meets (a b : CompiledRulePattern) : Prop :=
  ∃ path, path ≠ [] ∧ (∀ seg ∈ path, Word seg) ∧ a.Matches path ∧ b.Matches path

theorem Meets.symm (h : Meets a b) : Meets b a := by
  obtain ⟨path, hne, hwords, ha, hb⟩ := h
  exact ⟨path, hne, hwords, hb, ha⟩

theorem patternsIntersect_comm : patternsIntersect a b = patternsIntersect b a := by
  unfold patternsIntersect
  cases a.kind <;> cases b.kind <;> simp [eq_comm, Bool.or_comm]

theorem exists_word : ∃ word, Word word :=
  ⟨['x'], by simp, by simp⟩

theorem snoc_iff {longer shorter : List Segment} :
    longer.length = shorter.length + 1 ∧ shorter <+: longer ↔
      ∃ word, longer = shorter ++ [word] := by
  constructor
  · rintro ⟨hlength, rest, rfl⟩
    rw [length_append] at hlength
    obtain ⟨word, rfl⟩ := length_eq_one_iff.mp (by omega : rest.length = 1)
    exact ⟨word, rfl⟩
  · rintro ⟨word, rfl⟩
    exact ⟨by simp, prefix_append _ _⟩

theorem starIntersectsDStar_iff :
    starIntersectsDStar s d = true ↔ d <+: s ∨ ∃ word, d = s ++ [word] := by
  unfold starIntersectsDStar isPrefixOf
  split_ifs with hd hs
  · exact iff_of_true rfl (.inl (List.isPrefixOf_iff_prefix.mp hd))
  · have hs := List.isPrefixOf_iff_prefix.mp hs
    have hd : ¬ d <+: s := fun h => hd (List.isPrefixOf_iff_prefix.mpr h)
    rw [← snoc_iff]
    simp [hd, hs]
  · have hs : ¬ s <+: d := fun h => hs (List.isPrefixOf_iff_prefix.mpr h)
    have hd : ¬ d <+: s := fun h => hd (List.isPrefixOf_iff_prefix.mpr h)
    rw [← snoc_iff]
    simp [hd, hs]

theorem patternsIntersect_exact (ha : a.WellFormed) (hkind : a.kind = .exact) :
    patternsIntersect a b = true ↔ Meets a b := by
  have hmeets : Meets a b ↔ b.Matches a.segments := by
    constructor
    · rintro ⟨path, -, -, hpath, hb⟩
      simp only [CompiledRulePattern.Matches, hkind] at hpath
      rw [← hpath]
      exact hb
    · intro hb
      exact ⟨a.segments, ha.nonempty, ha.words, by simp [CompiledRulePattern.Matches, hkind], hb⟩
  rw [hmeets]
  unfold patternsIntersect CompiledRulePattern.Matches isPrefixOf
  cases hb : b.kind with
  | exact => simp [hkind]
  | star => simpa [hkind] using snoc_iff
  | dstar => simp [hkind]

theorem patternsIntersect_star (ha : a.WellFormed) (hkind : a.kind = .star)
    (hkind' : b.kind = .star) : patternsIntersect a b = true ↔ Meets a b := by
  unfold patternsIntersect
  simp only [hkind, hkind', decide_eq_true_eq]
  constructor
  · intro heq
    obtain ⟨word, hword⟩ := exists_word
    refine ⟨a.segments ++ [word], by simp, forall_mem_snoc ha.words hword, ?_, ?_⟩
    · simp [CompiledRulePattern.Matches, hkind]
    · simp [CompiledRulePattern.Matches, hkind', heq]
  · rintro ⟨path, -, -, hpa, hpb⟩
    simp only [CompiledRulePattern.Matches, hkind, hkind'] at hpa hpb
    obtain ⟨word, rfl⟩ := hpa
    obtain ⟨word', heq⟩ := hpb
    exact (append_inj' heq rfl).1

theorem patternsIntersect_star_dstar (ha : a.WellFormed) (hb : b.WellFormed)
    (hkind : a.kind = .star) (hkind' : b.kind = .dstar) :
    patternsIntersect a b = true ↔ Meets a b := by
  unfold patternsIntersect
  simp only [hkind, hkind', starIntersectsDStar_iff]
  constructor
  · rintro (hpre | ⟨word, hword⟩)
    · obtain ⟨word, hword⟩ := exists_word
      refine ⟨a.segments ++ [word], by simp, forall_mem_snoc ha.words hword, ?_, ?_⟩
      · simp [CompiledRulePattern.Matches, hkind]
      · simp only [CompiledRulePattern.Matches, hkind']
        exact hpre.trans (prefix_append _ _)
    · refine ⟨b.segments, hb.nonempty, hb.words, ?_, ?_⟩
      · simp only [CompiledRulePattern.Matches, hkind]
        exact ⟨word, hword⟩
      · simp only [CompiledRulePattern.Matches, hkind']
        exact prefix_rfl
  · rintro ⟨path, -, -, hpa, hpb⟩
    simp only [CompiledRulePattern.Matches, hkind, hkind'] at hpa hpb
    obtain ⟨word, rfl⟩ := hpa
    rcases prefix_concat_iff.mp hpb with heq | hpre
    · exact .inr ⟨word, heq⟩
    · exact .inl hpre

theorem patternsIntersect_dstar (ha : a.WellFormed) (hb : b.WellFormed) (hkind : a.kind = .dstar)
    (hkind' : b.kind = .dstar) : patternsIntersect a b = true ↔ Meets a b := by
  unfold patternsIntersect isPrefixOf
  simp only [hkind, hkind', Bool.or_eq_true, List.isPrefixOf_iff_prefix]
  constructor
  · rintro (hpre | hpre)
    · refine ⟨b.segments, hb.nonempty, hb.words, ?_, ?_⟩
      · simpa [CompiledRulePattern.Matches, hkind] using hpre
      · simp [CompiledRulePattern.Matches, hkind']
    · refine ⟨a.segments, ha.nonempty, ha.words, ?_, ?_⟩
      · simp [CompiledRulePattern.Matches, hkind]
      · simpa [CompiledRulePattern.Matches, hkind'] using hpre
  · rintro ⟨path, -, -, hpa, hpb⟩
    simp only [CompiledRulePattern.Matches, hkind, hkind'] at hpa hpb
    exact prefix_or_prefix_of_prefix hpa hpb

theorem patternsIntersect_iff (ha : a.WellFormed) (hb : b.WellFormed) :
    patternsIntersect a b = true ↔ Meets a b := by
  have hsymm : ∀ {p q : CompiledRulePattern}, (patternsIntersect q p = true ↔ Meets q p) →
      (patternsIntersect p q = true ↔ Meets p q) := by
    intro p q h
    rw [patternsIntersect_comm, h]
    exact ⟨Meets.symm, Meets.symm⟩
  cases hkind : a.kind with
  | exact => exact patternsIntersect_exact ha hkind
  | star =>
    cases hkind' : b.kind with
    | exact => exact hsymm (patternsIntersect_exact hb hkind')
    | star => exact patternsIntersect_star ha hkind hkind'
    | dstar => exact patternsIntersect_star_dstar ha hb hkind hkind'
  | dstar =>
    cases hkind' : b.kind with
    | exact => exact hsymm (patternsIntersect_exact hb hkind')
    | star => exact hsymm (patternsIntersect_star_dstar hb ha hkind' hkind)
    | dstar => exact patternsIntersect_dstar ha hb hkind hkind'

theorem patternsIntersect_iff_channel {k raw : String} (ha : compilePattern k = .ok a)
    (hb : compilePattern raw = .ok b) :
    patternsIntersect a b = true ↔
      ∃ c, Concrete c ∧ matchCriteria k c = true ∧ matchCriteria raw c = true := by
  rw [patternsIntersect_iff (compilePattern_eq_ok ha).2.2 (compilePattern_eq_ok hb).2.2]
  constructor
  · rintro ⟨path, hne, hwords, hpa, hpb⟩
    have hconcrete := concrete_channelOf hne hwords
    have hsplit := splitSegments_channelOf hne hwords
    refine ⟨channelOf path, hconcrete, ?_, ?_⟩
    · rwa [matchCriteria_iff ha hconcrete, hsplit]
    · rwa [matchCriteria_iff hb hconcrete, hsplit]
  · rintro ⟨c, hconcrete, hk, hraw⟩
    exact ⟨splitSegments c, splitSegments_ne_nil c, words_of_concrete hconcrete,
      (matchCriteria_iff ha hconcrete).mp hk, (matchCriteria_iff hb hconcrete).mp hraw⟩

end Intersection

section Decision
variable (a : Authorizer)

theorem decideSubscribe_allow_iff (denies : CompiledRule → Bool) (k : String) :
    (decideSubscribe a denies k).allow = true ↔
      (∃ key, compilePattern k = .ok key) ∧
        ∀ c, Concrete c → matchCriteria k c = true →
          ∀ rule ∈ a.rules, matchCriteria rule.raw c = true → denies rule = false := by
  unfold decideSubscribe
  cases hkey : compilePattern k with
  | error err => simp
  | ok key =>
    have hany : a.rules.any (fun rule => denies rule && patternsIntersect key rule.pattern) = true ↔
        ∃ rule ∈ a.rules, denies rule = true ∧
          ∃ c, Concrete c ∧ matchCriteria k c = true ∧ matchCriteria rule.raw c = true := by
      rw [any_eq_true]
      refine exists_congr fun rule => and_congr_right fun _ => ?_
      rw [Bool.and_eq_true, patternsIntersect_iff_channel hkey rule.compiled]
    dsimp only
    split_ifs with hdenied
    · obtain ⟨rule, hrule, hdenies, c, hconcrete, hk, hraw⟩ := hany.mp hdenied
      refine iff_of_false (by simp) ?_
      rintro ⟨-, hall⟩
      exact absurd (hall c hconcrete hk rule hrule hraw) (by simp [hdenies])
    · refine iff_of_true rfl ⟨⟨key, rfl⟩, ?_⟩
      intro c hconcrete hk rule hrule hraw
      by_contra hdenies
      exact hdenied (hany.mpr ⟨rule, hrule, by simpa using hdenies, c, hconcrete, hk, hraw⟩)

theorem decideSubscribe_channel {denies : CompiledRule → Bool} {k c : String}
    (hallow : (decideSubscribe a denies k).allow = true) (hconcrete : Concrete c)
    (hmatch : matchCriteria k c = true) : (decideSubscribe a denies c).allow = true := by
  obtain ⟨⟨key, hkey⟩, hall⟩ := (decideSubscribe_allow_iff a denies k).mp hallow
  have hc := compilePattern_concrete hconcrete
  refine (decideSubscribe_allow_iff a denies c).mpr ⟨⟨_, hc⟩, ?_⟩
  intro c' hconcrete' hmatch' rule hrule hraw
  -- a channel that the exact key matches has the same words
  have hsame : splitSegments c' = splitSegments c := (matchCriteria_iff hc hconcrete').mp hmatch'
  refine hall c' hconcrete' ?_ rule hrule hraw
  rw [matchCriteria_iff hkey hconcrete', hsame]
  exact (matchCriteria_iff hkey hconcrete).mp hmatch

/-- A subscription is allowed exactly when its key compiles and no rule that matches a channel it
can deliver denies the principal; each of those channels is then allowed on its own. -/
theorem subscribePattern_allow (p : Principal) (k : String) :
    ((decide a p .subscribePattern k).allow = true ↔
      (∃ key, compilePattern k = .ok key) ∧
        ∀ c, Concrete c → matchCriteria k c = true →
          ∀ rule ∈ a.rules, matchCriteria rule.raw c = true →
            ruleDenies rule rule.allowSubscribe p = false) ∧
    ((decide a p .subscribePattern k).allow = true →
      ∀ c, Concrete c → matchCriteria k c = true →
        (decide a p .subscribePattern c).allow = true) :=
  ⟨decideSubscribe_allow_iff a _ k, fun hallow _ hconcrete hmatch =>
    decideSubscribe_channel a hallow hconcrete hmatch⟩

end Decision

end MessageLoop.Authz
