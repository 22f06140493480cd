import MessageLoop.Authz.Inclusion

/-!
One language of keys (`internal/channel/interest.go`, `internal/authz/authorizer.go`,
`internal/config/config.go`): the three parsers accept the same texts. How the decisions of the
authorizer depend on its rules and on the key.
-/

namespace MessageLoop.Authz

open Topics List

def validateAuthorizerPattern (pattern : String) : Except String Unit :=
  if !validTopic pattern then .error "topic does not fit within topic space"
  else if !isWildcard pattern then .ok ()
  else
    let segments := splitSegments pattern
    let last := segments.getLast?.getD []
    if last ≠ wildcard ∧ last ≠ multiWildcard then
      .error "wildcard must be the final segment (last segment must be * or **)"
    else if segments.dropLast.any fun seg => Decidable.decide ('*' ∈ seg) then
      .error "only the final segment may be a wildcard"
    else if segments.length = 1 then .error "empty literal prefix is not allowed"
    else .ok ()

section Language
variable {key : String} {segs : List Segment}

theorem joinSegments_ne_nil (hne : segs ≠ []) (hsegs : ∀ seg ∈ segs, seg ≠ []) :
    joinSegments '.' segs ≠ [] := by
  obtain ⟨first, rest, rfl⟩ := exists_cons_of_ne_nil hne
  have hfirst := hsegs first mem_cons_self
  cases rest with
  | nil => simpa [joinSegments] using hfirst
  | cons next rest =>
    rw [joinSegments_cons_cons]
    exact append_ne_nil_of_left_ne_nil hfirst _

theorem joinPrefix_eq_nil_iff (key : String) (hsegs : ∀ seg ∈ segs, seg ≠ []) :
    (joinPrefix key segs).1 = [] ↔ segs = [] := by
  constructor
  · intro hjoined
    by_contra hne
    unfold joinPrefix at hjoined
    split_ifs at hjoined
    · split at hjoined
      · exact hne rfl
      · exact hsegs _ mem_cons_self hjoined
      · exact hsegs _ mem_cons_self (append_eq_nil_iff.mp hjoined).1
    · exact joinSegments_ne_nil hne hsegs hjoined
  · rintro rfl
    unfold joinPrefix
    split_ifs <;> rfl

theorem dropLast_splitSegments_eq_nil_iff :
    (splitSegments key).dropLast = [] ↔ (splitSegments key).length = 1 := by
  have hpos := length_pos_iff.mpr (splitSegments_ne_nil key)
  rw [← length_eq_zero_iff, length_dropLast]
  omega

/-- The names that the live bus compiles from a key, by the pattern that the authorizer compiles from
it. -/
def CompiledRulePattern.interest (key : String) (p : CompiledRulePattern) : CompiledInterest :=
  let (joined, sep) := joinPrefix key p.segments
  let pattern := String.ofList (joined ++ sep ++ wildcard)
  match p.kind with
  | .exact => ⟨key, "", ""⟩
  | .star => ⟨"", pattern, ""⟩
  | .dstar => ⟨"", pattern, String.ofList joined⟩

theorem compileInterest_eq (key : String) : (compileInterest key).toOption =
    (compilePattern key).toOption.map (CompiledRulePattern.interest key) := by
  unfold compileInterest compilePattern
  dsimp only
  cases hvalid : validTopic key with
  | false => rfl
  | true =>
    have hempty := joinPrefix_eq_nil_iff key fun seg hseg =>
      ne_nil_of_validSegments hvalid (mem_of_mem_dropLast hseg)
    simp only [hempty]
    split_ifs <;> rfl

theorem compileInterest_isOk_iff (key : String) :
    (compileInterest key).isOk = (compilePattern key).isOk := by
  have h := compileInterest_eq key
  cases hi : compileInterest key <;> cases hp : compilePattern key <;> rw [hi, hp] at h <;>
    first | rfl | cases h

theorem exists_of_compileInterest {ci : CompiledInterest} (h : compileInterest key = .ok ci) :
    ∃ p, compilePattern key = .ok p ∧ p.interest key = ci := by
  have heq := compileInterest_eq key
  cases hp : compilePattern key with
  | error e =>
    rw [h, hp] at heq
    cases heq
  | ok p =>
    rw [h, hp] at heq
    exact ⟨p, rfl, (Option.some.inj heq).symm⟩

theorem kind_eq_exact_iff {p : CompiledRulePattern} (h : compilePattern key = .ok p) :
    p.kind = .exact ↔ isWildcard key = false := by
  unfold compilePattern at h
  dsimp only at h
  split_ifs at h <;> cases h <;> simp_all

theorem validateAuthorizerPattern_isOk_iff (key : String) :
    (validateAuthorizerPattern key).isOk = (compilePattern key).isOk := by
  unfold validateAuthorizerPattern compilePattern
  dsimp only
  simp only [dropLast_splitSegments_eq_nil_iff]
  split_ifs <;> rfl

/-- The three parsers accept the same keys, and what the authorizer compiles from a wildcard key
covers the channels that the key matches. -/
theorem one_key_language (s : String) :
    (compileInterest s).isOk = (compilePattern s).isOk ∧
      (compilePattern s).isOk = (validateAuthorizerPattern s).isOk ∧
      ∀ p, compilePattern s = .ok p → isWildcard s = true → ∀ c, Concrete c →
        (matchCriteria s c = true ↔
          p.kind = .star ∧ (∃ word, splitSegments c = p.segments ++ [word]) ∨
          p.kind = .dstar ∧ p.segments <+: splitSegments c) := by
  refine ⟨compileInterest_isOk_iff s, (validateAuthorizerPattern_isOk_iff s).symm, ?_⟩
  intro p hp hwild c hc
  have hkind : p.kind ≠ .exact := by simp [kind_eq_exact_iff hp, hwild]
  rw [matchCriteria_iff hp hc, CompiledRulePattern.Matches]
  cases hp : p.kind with
  | exact => exact absurd hp hkind
  | star => simp
  | dstar => simp

end Language

section Monotone
variable {a b : Authorizer} {p : Principal} {k : String}

theorem publishDenial_eq_none_iff {rules : List CompiledRule} :
    publishDenial p k rules = none ↔
      ∀ rule ∈ rules, matchCriteria rule.raw k = true → ruleDenies rule rule.allowPublish p = false := by
  induction rules with
  | nil => simp [publishDenial]
  | cons rule rules ih =>
    rw [publishDenial, forall_mem_cons]
    cases hmatch : matchCriteria rule.raw k with
    | false => simpa using ih
    | true =>
      cases hdeny : rule.denyAll with
      | true => simp [ruleDenies, hdeny]
      | false =>
        cases hlist : ruleDenies rule rule.allowPublish p with
        | true => simp
        | false => simpa using ih

theorem publish_allow_iff :
    (decide a p .publish k).allow = true ↔
      ∀ rule ∈ a.rules, matchCriteria rule.raw k = true →
        ruleDenies rule rule.allowPublish p = false := by
  rw [← publishDenial_eq_none_iff, decide]
  cases publishDenial p k a.rules <;> simp

theorem allow_of_subset {action : Action} (haction : action = .subscribePattern ∨ action = .publish)
    (hsub : a.rules ⊆ b.rules) (h : (decide b p action k).allow = true) :
    (decide a p action k).allow = true := by
  rcases haction with rfl | rfl
  · obtain ⟨hkey, hall⟩ := (decideSubscribe_allow_iff b _ k).mp h
    exact (decideSubscribe_allow_iff a _ k).mpr
      ⟨hkey, fun c hc hk rule hrule => hall c hc hk rule (hsub hrule)⟩
  · exact publish_allow_iff.mpr fun rule hrule => publish_allow_iff.mp h rule (hsub hrule)

/-- Rules only take away: neither their order nor a further rule allows what was denied, a key with
fewer channels is allowed with one that has more, and no principal passes a `denyAll`. -/
theorem decide_monotone (a b : Authorizer) (p : Principal) (k : String) :
    (∀ action, action = .subscribePattern ∨ action = .publish →
      (a.rules.Perm b.rules → (decide a p action k).allow = (decide b p action k).allow) ∧
      (a.rules ⊆ b.rules → (decide a p action k).allow = false →
        (decide b p action k).allow = false)) ∧
    (∀ k', (∃ key, compilePattern k = .ok key) →
      (∀ c, Concrete c → matchCriteria k c = true → matchCriteria k' c = true) →
        (decide a p .subscribePattern k').allow = true →
          (decide a p .subscribePattern k).allow = true) ∧
    ((decideSubscribeSkipAllowLists a k).allow = false →
      (decide a p .subscribePattern k).allow = false) := by
  refine ⟨fun action haction => ⟨?_, ?_⟩, ?_, ?_⟩
  · intro hperm
    exact Bool.eq_iff_iff.mpr
      ⟨allow_of_subset haction hperm.symm.subset, allow_of_subset haction hperm.subset⟩
  · intro hsub hdenied
    rw [← Bool.not_eq_true] at hdenied ⊢
    exact fun h => hdenied (allow_of_subset haction hsub h)
  · intro k' hkey hincluded hallow
    obtain ⟨-, hall⟩ := (decideSubscribe_allow_iff a _ k').mp hallow
    exact (decideSubscribe_allow_iff a _ k).mpr
      ⟨hkey, fun c hc hk => hall c hc (hincluded c hc hk)⟩
  · intro hdenied
    rw [← Bool.not_eq_true] at hdenied ⊢
    intro hallow
    obtain ⟨hkey, hall⟩ := (decideSubscribe_allow_iff a _ k).mp hallow
    refine hdenied ((decideSubscribe_allow_iff a _ k).mpr ⟨hkey, fun c hc hk rule hrule hraw => ?_⟩)
    have hdenies := hall c hc hk rule hrule hraw
    cases hdeny : rule.denyAll with
    | false => rfl
    | true => simp [ruleDenies, hdeny] at hdenies

end Monotone

end MessageLoop.Authz
