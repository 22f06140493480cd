import MessageLoop.Topics.TrieAttempts

/-!
The trie matcher as a set of subscriptions: what every history of completed calls leaves in the
trie, and what a lookup that returns has found.

Two patterns with the same segments are one pattern to the trie, whichever delimiters they use.
-/

namespace MessageLoop.Trie

open Topics LinkedTrie List

variable {σ : Type} (comparable : σ → Bool)

def SameSegments (pattern topic : String) : Prop :=
  splitSegments pattern = splitSegments topic

/-- The subscriber has subscribed to the pattern and has not unsubscribed from it afterwards, where
`same` says which topics of an `Unsubscribe` are the pattern. -/
def Subscribed (same : String → String → Prop) (as : List (Action σ)) (pattern : String) (s : σ) :
    Prop :=
  ∃ before after attempts, as = before ++ .subscribe pattern s attempts :: after ∧
    comparable s = true ∧ validTopic pattern = true ∧
    ∀ topic n, .unsubscribe (some ⟨topic, s⟩) n ∈ after → ¬ same pattern topic

variable {nodes nodes' : Nodes σ} {as : List (Action σ)} {a : Action σ} {words : List Segment}
variable {sub : σ} {n : Nat} {topic : String} {subs : List σ}

section History
variable {comparable} {same : String → String → Prop}
variable {pattern : String} {s : σ}

theorem Subscribed.append (h : Subscribed comparable same as pattern s)
    (ha : ∀ topic n, a = .unsubscribe (some ⟨topic, s⟩) n → ¬ same pattern topic) :
    Subscribed comparable same (as ++ [a]) pattern s := by
  obtain ⟨before, after, attempts, rfl, hcomparable, hvalid, hkept⟩ := h
  refine ⟨before, after ++ [a], attempts, by simp, hcomparable, hvalid, ?_⟩
  intro topic n hmem
  rcases mem_append.mp hmem with hmem | hmem
  · exact hkept topic n hmem
  · exact ha topic n (mem_singleton.mp hmem).symm

theorem Subscribed.cases_append (h : Subscribed comparable same (as ++ [a]) pattern s) :
    Subscribed comparable same as pattern s ∧
        (∀ topic n, a = .unsubscribe (some ⟨topic, s⟩) n → ¬ same pattern topic) ∨
      ∃ attempts, a = .subscribe pattern s attempts ∧ comparable s = true ∧
        validTopic pattern = true := by
  obtain ⟨before, after, attempts, hsplit, hcomparable, hvalid, hkept⟩ := h
  rcases eq_nil_or_concat after with rfl | ⟨after, last, rfl⟩
  · obtain ⟨-, rfl⟩ := append_inj' hsplit rfl |>.imp id singleton_inj.mp
    exact .inr ⟨attempts, rfl, hcomparable, hvalid⟩
  · rw [concat_eq_append, ← cons_append, ← append_assoc] at hsplit
    obtain ⟨rfl, hlast⟩ := append_inj' hsplit rfl
    obtain rfl := singleton_inj.mp hlast
    refine .inl ⟨⟨before, after, attempts, rfl, hcomparable, hvalid, ?_⟩, ?_⟩
    · intro topic n hmem
      exact hkept topic n (by simp [hmem])
    · rintro topic n rfl
      exact hkept topic n (by simp)

end History

section Calls

/-- An attempt has the given effect, or it asks for another one and has changed nothing that a
path can see; then so has the whole loop. -/
theorem retry_spec (Effect : Nodes σ → Nodes σ → Prop) {attempt : Nodes σ → Nodes σ × Bool}
    (hattempt : ∀ nodes, Inv nodes → (attempt nodes).2 = false ∧ Quiet nodes (attempt nodes).1 ∨
      (attempt nodes).2 = true ∧ Effect nodes (attempt nodes).1)
    (hquiet : ∀ {nodes nodes' nodes''}, Quiet nodes nodes' → Effect nodes' nodes'' →
      Effect nodes nodes'') (hinv : Inv nodes) (h : retry attempt n nodes = some nodes') :
    Effect nodes nodes' := by
  induction n generalizing nodes with
  | zero => cases h
  | succ n ih =>
    unfold retry at h
    rcases hattempt nodes hinv with ⟨hdone, hstep⟩ | ⟨hdone, hstep⟩
    · rw [show attempt nodes = ((attempt nodes).1, false) from Prod.ext rfl hdone] at h
      exact hquiet hstep (ih (hstep.inv hinv) h)
    · rw [show attempt nodes = ((attempt nodes).1, true) from Prod.ext rfl hdone] at h
      cases h
      exact hstep

theorem Quiet.subscribersAt (h : Quiet nodes nodes') (path : List Segment) :
    subscribersAt nodes' path = subscribersAt nodes path :=
  h.items root path

variable [DecidableEq σ]

theorem adds_of_retry (hinv : Inv nodes) (hwords : words ≠ [])
    (h : retry (fun nodes => iinsert nodes sub root none words) n nodes = some nodes') :
    Adds nodes nodes' words sub := by
  refine retry_spec (fun nodes nodes' => Adds nodes nodes' words sub) ?_ ?_ hinv h
  · intro nodes hinv
    obtain ⟨q, word, rest, j, above, pp, hsplit, hdescends, hinserted⟩ :=
      exists_inserted nodes sub hwords
    rw [hsplit] at hinserted ⊢
    exact hinserted.adds hinv hdescends.walk
  · intro nodes nodes' nodes'' hquiet hadds
    refine ⟨hadds.inv, fun path s => ?_⟩
    rw [hadds.mem, hquiet.subscribersAt]

theorem removes_of_retry (hinv : Inv nodes) (hwords : words ≠ [])
    (h : retry (fun nodes => iremove nodes sub root none none words) n nodes = some nodes') :
    Removes nodes nodes' words sub := by
  refine retry_spec (fun nodes nodes' => Removes nodes nodes' words sub) ?_ ?_ hinv h
  · intro nodes hinv
    obtain ⟨q, word, rest, j, above, pp, hsplit, hdescends, hremoved⟩ :=
      exists_removed nodes sub hwords
    rw [hsplit] at hremoved ⊢
    exact hremoved.removes hinv hdescends.walk
  · intro nodes nodes' nodes'' hquiet hremoves
    refine ⟨hremoves.inv, fun path s => ?_⟩
    rw [hremoves.mem, hquiet.subscribersAt]

theorem lookupAttempts_spec (hwords : words ≠ []) (hsegs : [] ∉ words)
    (h : lookupAttempts words n nodes = some (nodes', subs)) :
    Quiet nodes nodes' ∧ subs.Nodup ∧ ∀ s, s ∈ subs ↔
      ∃ path, s ∈ subscribersAt nodes path ∧ matchPath path words = true := by
  induction n generalizing nodes with
  | zero => cases h
  | succ n ih =>
    have hlooks := looks_ilookup nodes root none hwords hsegs
    unfold lookupAttempts at h
    cases hattempt : ilookup nodes root none words with
    | ok found =>
      rw [hattempt] at h hlooks
      cases h
      exact ⟨.refl _, hlooks⟩
    | error cleaned =>
      rw [hattempt] at h hlooks
      have hquiet : Quiet nodes cleaned := hlooks
      obtain ⟨hrest, hnodup, hmem⟩ := ih h
      refine ⟨hquiet.trans hrest, hnodup, fun s => ?_⟩
      rw [hmem]
      simp only [hquiet.subscribersAt]

theorem lookup_spec (h : lookup n nodes topic = some (nodes', subs)) :
    Quiet nodes nodes' ∧ subs.Nodup ∧ ∀ s, s ∈ subs ↔
      [] ∉ splitSegments topic ∧
        ∃ path, s ∈ subscribersAt nodes path ∧ matchPath path (splitSegments topic) = true := by
  unfold lookup at h
  dsimp only at h
  split_ifs at h with hempty
  · cases h
    exact ⟨.refl _, nodup_nil, fun s => iff_of_false not_mem_nil fun hs => hs.1 hempty⟩
  · obtain ⟨hquiet, hnodup, hmem⟩ := lookupAttempts_spec (splitSegments_ne_nil topic) hempty h
    exact ⟨hquiet, hnodup, fun s => (hmem s).trans (and_iff_right hempty).symm⟩

end Calls

section Runs

structure Represents (as : List (Action σ)) (nodes : Nodes σ) : Prop where
  inv : Inv nodes
  mem : ∀ path s, s ∈ subscribersAt nodes path ↔
    ∃ pattern, splitSegments pattern = path ∧ Subscribed comparable SameSegments as pattern s

variable {comparable}

theorem store_newCSTrieMatcher (i : Nat) (word : Segment) :
    store (newCSTrieMatcher : Nodes σ) i word = none := by
  cases i <;> rfl

theorem located_newCSTrieMatcher : Located (newCSTrieMatcher : Nodes σ).length (fun _ => [])
    (store (newCSTrieMatcher : Nodes σ)) := by
  constructor
  · intro i word l j hl
    rw [store_newCSTrieMatcher] at hl
    cases hl
  · intro i word l j hl
    rw [store_newCSTrieMatcher] at hl
    cases hl

theorem represents_start : Represents comparable [] (newCSTrieMatcher : Nodes σ) := by
  refine ⟨⟨Nat.zero_lt_one, fun _ => [], located_newCSTrieMatcher⟩, ?_⟩
  intro path s
  refine iff_of_false ?_ ?_
  · cases path with
    | nil => exact not_mem_nil
    | cons word rest =>
      rw [subscribersAt, items_cons, store_newCSTrieMatcher]
      exact not_mem_nil
  · rintro ⟨pattern, -, before, after, attempts, hsplit, -⟩
    simp at hsplit

variable (h : Represents comparable as nodes)
include h

theorem Represents.quiet (hquiet : Quiet nodes nodes')
    (hunsub : ∀ topic s n, a ≠ .unsubscribe (some ⟨topic, s⟩) n)
    (hsub : ∀ pattern s n, a = .subscribe pattern s n →
      ¬ (comparable s = true ∧ validTopic pattern = true)) :
    Represents comparable (as ++ [a]) nodes' := by
  refine ⟨hquiet.inv h.inv, fun path s => ?_⟩
  rw [hquiet.subscribersAt, h.mem]
  refine exists_congr fun pattern => and_congr_right fun _ => ⟨?_, ?_⟩
  · intro hs
    exact hs.append fun topic n ha => absurd ha (hunsub topic s n)
  · intro hs
    rcases hs.cases_append with ⟨hs, -⟩ | ⟨n, ha, hok⟩
    · exact hs
    · exact absurd hok (hsub pattern s n ha)

theorem Represents.subscribe (hcomparable : comparable sub = true)
    (hvalid : validTopic topic = true) (hadds : Adds nodes nodes' (splitSegments topic) sub) :
    Represents comparable (as ++ [.subscribe topic sub n]) nodes' := by
  refine ⟨hadds.inv, fun path s => ?_⟩
  rw [hadds.mem, h.mem]
  constructor
  · rintro (⟨pattern, hpath, hs⟩ | ⟨rfl, rfl⟩)
    · exact ⟨pattern, hpath, hs.append (by simp)⟩
    · exact ⟨topic, rfl, as, [], n, rfl, hcomparable, hvalid, by simp⟩
  · rintro ⟨pattern, rfl, hs⟩
    rcases hs.cases_append with ⟨hs, -⟩ | ⟨m, ha, -⟩
    · exact .inl ⟨pattern, rfl, hs⟩
    · obtain ⟨rfl, rfl, -⟩ := Action.subscribe.inj ha
      exact .inr ⟨rfl, rfl⟩

theorem Represents.unsubscribe {sub : Subscription σ}
    (hremoves : Removes nodes nodes' (splitSegments sub.topic) sub.subscriber) :
    Represents comparable (as ++ [.unsubscribe (some sub) n]) nodes' := by
  refine ⟨hremoves.inv, fun path s => ?_⟩
  rw [hremoves.mem, h.mem]
  constructor
  · rintro ⟨⟨pattern, rfl, hs⟩, hkept⟩
    refine ⟨pattern, rfl, hs.append ?_⟩
    intro topic m ha hsame
    obtain ⟨hsub, -⟩ := Action.unsubscribe.inj ha
    cases hsub
    exact hkept ⟨hsame, rfl⟩
  · rintro ⟨pattern, rfl, hs⟩
    rcases hs.cases_append with ⟨hs, hkept⟩ | ⟨m, ha, -⟩
    · refine ⟨⟨pattern, rfl, hs⟩, ?_⟩
      rintro ⟨hsame, rfl⟩
      exact hkept sub.topic n rfl hsame
    · cases ha

variable [DecidableEq σ]

theorem Represents.step (hstep : step comparable nodes a = some nodes') :
    Represents comparable (as ++ [a]) nodes' := by
  cases a with
  | subscribe topic sub n =>
    simp only [Trie.step, Trie.subscribe] at hstep
    split_ifs at hstep with hcomparable hvalid
    · cases hstep
      refine h.quiet (.refl _) (by simp) ?_
      rintro pattern s m ha ⟨hok, -⟩
      obtain ⟨-, rfl, -⟩ := Action.subscribe.inj ha
      simp [hok] at hcomparable
    · cases hstep
      refine h.quiet (.refl _) (by simp) ?_
      rintro pattern s m ha ⟨-, hok⟩
      obtain ⟨rfl, -⟩ := Action.subscribe.inj ha
      simp [hok] at hvalid
    · simp only [Option.map_map, Option.map_eq_some_iff] at hstep
      obtain ⟨done, hretry, rfl⟩ := hstep
      exact h.subscribe (by simpa using hcomparable) (by simpa using hvalid)
        (adds_of_retry h.inv (splitSegments_ne_nil topic) hretry)
  | unsubscribe sub n =>
    cases sub with
    | none =>
      cases hstep
      exact h.quiet (.refl _) (by simp) (by simp)
    | some sub =>
      exact h.unsubscribe (removes_of_retry h.inv (splitSegments_ne_nil sub.topic) hstep)
  | lookup topic n =>
    simp only [Trie.step, Option.map_eq_some_iff] at hstep
    obtain ⟨⟨cleaned, subs⟩, hlookup, rfl⟩ := hstep
    exact h.quiet (lookup_spec hlookup).1 (by simp) (by simp)

omit h in
theorem represents_run (hrun : run comparable newCSTrieMatcher as = some nodes) :
    Represents comparable as nodes :=
  Transition.run_induction (P := Represents comparable) represents_start
    (fun _ _ _ _ _ h hstep => h.step hstep) as nodes hrun

end Runs

/-- A lookup that returns gives each subscriber of a matching pattern once, and nobody else; a topic
with an empty segment gives nobody. After an `Unsubscribe` only other patterns count, however often
the subscriber had subscribed. -/
theorem matcher_lookup [DecidableEq σ] {comparable : σ → Bool} {as : List (Action σ)}
    {nodes nodes' : Nodes σ} {t : String} {n : Nat} {subs : List σ}
    (hrun : run comparable newCSTrieMatcher as = some nodes)
    (hlookup : lookup n nodes t = some (nodes', subs)) :
    subs.Nodup ∧
    (∀ s, s ∈ subs ↔
      ∃ p, matchCriteria p t = true ∧ Subscribed comparable SameSegments as p s) ∧
    ([] ∈ splitSegments t → subs = []) ∧
    ∀ before topic s k, as = before ++ [.unsubscribe (some ⟨topic, s⟩) k] → s ∈ subs →
      ∃ p, ¬ SameSegments p topic ∧ matchCriteria p t = true ∧
        Subscribed comparable SameSegments before p s := by
  have hrep := represents_run hrun
  obtain ⟨-, hnodup, hmem⟩ := lookup_spec hlookup
  have hfound : ∀ s, s ∈ subs ↔
      ∃ p, matchCriteria p t = true ∧ Subscribed comparable SameSegments as p s := by
    intro s
    rw [hmem]
    by_cases hempty : [] ∈ splitSegments t
    · simp [hempty, matchCriteria_of_empty_segment hempty]
    · simp only [hempty, not_false_eq_true, true_and, matchCriteria_eq hempty, hrep.mem]
      constructor
      · rintro ⟨path, ⟨p, rfl, hs⟩, hmatch⟩
        exact ⟨p, hmatch, hs⟩
      · rintro ⟨p, hmatch, hs⟩
        exact ⟨_, ⟨p, rfl, hs⟩, hmatch⟩
  refine ⟨hnodup, hfound, ?_, ?_⟩
  · intro hempty
    refine eq_nil_iff_forall_not_mem.mpr fun s hs => ?_
    exact ((hmem s).mp hs).1 hempty
  · rintro before topic s k rfl hs
    obtain ⟨p, hmatch, hsub⟩ := (hfound s).mp hs
    rcases hsub.cases_append with ⟨hsub, hkept⟩ | ⟨m, ha, -⟩
    · exact ⟨p, hkept topic k rfl, hmatch, hsub⟩
    · cases ha

section Inputs

def always (_ : Nat) : Bool := true

def mixed : List (Action Nat) :=
  [.subscribe "a.b" 7 1, .subscribe "a.*" 7 1, .subscribe "a.**" 8 1, .subscribe "*.b" 9 1,
    .subscribe "a.b" 7 1, .unsubscribe (some ⟨"a.b", 7⟩) 1, .unsubscribe (some ⟨"*.b", 9⟩) 1]

theorem matcher_lookup_mixed :
    ∃ nodes nodes', run always newCSTrieMatcher mixed = some nodes ∧
      lookup 1 nodes "a.b" = some (nodes', [7, 8]) ∧
      [7, 8].Nodup ∧
      (∀ s, s ∈ [7, 8] ↔
        ∃ p, matchCriteria p "a.b" = true ∧ Subscribed always SameSegments mixed p s) ∧
      ([] ∈ splitSegments "a.b" → [7, 8] = []) ∧
      ∀ before topic s k, mixed = before ++ [.unsubscribe (some ⟨topic, s⟩) k] → s ∈ [7, 8] →
        ∃ p, ¬ SameSegments p topic ∧ matchCriteria p "a.b" = true ∧
          Subscribed always SameSegments before p s :=
  ⟨_, _, rfl, rfl, matcher_lookup (t := "a.b") (n := 1)
    (rfl : run always newCSTrieMatcher mixed = _) rfl⟩

/-- One subscriber of `a:b` and `a.b` leaves `a.b` and is not found any more, although `a:b` matches
and was never left. -/
theorem matcher_lookup_delimiters :
    ∃ as nodes nodes' subs, run always newCSTrieMatcher as = some nodes ∧
      lookup 1 nodes "a.b" = some (nodes', subs) ∧ 7 ∉ subs ∧
      ∃ p, matchCriteria p "a.b" = true ∧ Subscribed always Eq as p 7 := by
  refine ⟨[.subscribe "a:b" 7 1, .subscribe "a.b" 7 1, .unsubscribe (some ⟨"a.b", 7⟩) 1], _, _, [],
    rfl, rfl, not_mem_nil, "a:b", by decide, [],
    [.subscribe "a.b" 7 1, .unsubscribe (some ⟨"a.b", 7⟩) 1], 1, rfl, rfl, by decide, ?_⟩
  rintro topic n hmem rfl
  simp at hmem

end Inputs

end MessageLoop.Trie
