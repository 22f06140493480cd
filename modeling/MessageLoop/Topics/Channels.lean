import MessageLoop.Topics

/-!
Concrete channels: topics without wildcards, as the lists of words that patterns match.
-/

namespace MessageLoop.Topics

open List

def Word (seg : Segment) : Prop :=
  seg ≠ [] ∧ ∀ c ∈ seg, c ≠ '.' ∧ c ≠ ':' ∧ c ≠ '*'

/-- A channel that can be published to: structurally valid and without wildcards. -/
def Concrete (channel : String) : Prop :=
  isWildcard channel = false ∧ validTopic channel = true

instance (channel : String) : Decidable (Concrete channel) :=
  inferInstanceAs (Decidable (_ ∧ _))

def channelOf (path : List Segment) : String :=
  String.ofList (joinSegments '.' path)

variable {seg : Segment} {path : List Segment} {channel : String} {c : Char}

theorem Word.ne_wildcard (h : Word seg) : seg ≠ wildcard := by
  rintro rfl
  exact (h.2 '*' (by decide)).2.2 rfl

theorem Word.not_infix (h : Word seg) : ¬ multiWildcard <:+: seg := by
  intro hstar
  exact (h.2 '*' (hstar.subset (by decide))).2.2 rfl

theorem Word.ne_multiWildcard (h : Word seg) : seg ≠ multiWildcard := by
  rintro rfl
  exact h.not_infix (infix_refl _)

theorem mem_splitOnP {α : Type} {p : α → Bool} {xs part : List α} {x : α}
    (hpart : part ∈ xs.splitOnP p) (hx : x ∈ part) : x ∈ xs ∧ p x = false := by
  induction xs generalizing part with
  | nil =>
    rw [splitOnP_nil, mem_singleton] at hpart
    subst hpart
    cases hx
  | cons y ys ih =>
    rw [splitOnP_cons_eq_if_modifyHead] at hpart
    split_ifs at hpart with hy
    · rcases mem_cons.mp hpart with rfl | hpart
      · cases hx
      · obtain ⟨hmem, hp⟩ := ih hpart hx
        exact ⟨mem_cons_of_mem y hmem, hp⟩
    · cases hparts : ys.splitOnP p with
      | nil => exact absurd hparts (splitOnP_ne_nil p ys)
      | cons first rest =>
        rw [hparts, modifyHead_cons] at hpart
        rcases mem_cons.mp hpart with rfl | hpart
        · rcases mem_cons.mp hx with rfl | hx
          · exact ⟨mem_cons_self, by simpa using hy⟩
          · obtain ⟨hmem, hp⟩ := ih (hparts ▸ mem_cons_self) hx
            exact ⟨mem_cons_of_mem y hmem, hp⟩
        · obtain ⟨hmem, hp⟩ := ih (hparts ▸ mem_cons_of_mem first hpart) hx
          exact ⟨mem_cons_of_mem y hmem, hp⟩

theorem mem_splitSegments (hseg : seg ∈ splitSegments channel) (hc : c ∈ seg) :
    c ∈ channel.toList ∧ c ≠ '.' ∧ c ≠ ':' := by
  obtain ⟨hmem, hdelim⟩ := mem_splitOnP hseg hc
  simpa [not_or] using And.intro hmem hdelim

theorem ne_nil_of_validSegments (h : validSegments path = true) (hseg : seg ∈ path) :
    seg ≠ [] := by
  induction path with
  | nil => cases hseg
  | cons first rest ih =>
    cases rest with
    | nil =>
      obtain rfl := mem_singleton.mp hseg
      simp only [validSegments, Bool.and_eq_true, decide_eq_true_eq] at h
      exact h.1
    | cons next rest =>
      simp only [validSegments, Bool.and_eq_true, decide_eq_true_eq] at h
      rcases mem_cons.mp hseg with rfl | hseg
      · exact h.1.1
      · exact ih h.2 hseg

theorem validSegments_of_words (h : ∀ seg ∈ path, Word seg) : validSegments path = true := by
  induction path with
  | nil => rfl
  | cons first rest ih =>
    have hfirst := h first mem_cons_self
    cases rest with
    | nil => simp [validSegments, hfirst.1, hfirst.not_infix]
    | cons next rest =>
      simp [validSegments, hfirst.1, hfirst.not_infix,
        ih fun seg hseg => h seg (mem_cons_of_mem first hseg)]

theorem nil_notMem_of_valid (h : validTopic channel = true) : [] ∉ splitSegments channel :=
  fun hmem => ne_nil_of_validSegments h hmem rfl

theorem words_of_concrete (h : Concrete channel) : ∀ seg ∈ splitSegments channel, Word seg := by
  intro seg hseg
  refine ⟨ne_nil_of_validSegments h.2 hseg, fun c hc => ?_⟩
  obtain ⟨hmem, hdot, hcolon⟩ := mem_splitSegments hseg hc
  refine ⟨hdot, hcolon, ?_⟩
  rintro rfl
  exact of_decide_eq_false h.1 hmem

theorem joinSegments_cons_cons (first next : Segment) (rest : List Segment) :
    joinSegments '.' (first :: next :: rest) =
      first ++ '.' :: joinSegments '.' (next :: rest) := by
  simp [joinSegments]

theorem mem_joinSegments (hc : c ∈ joinSegments '.' path) : c = '.' ∨ ∃ seg ∈ path, c ∈ seg := by
  induction path with
  | nil => simp [joinSegments] at hc
  | cons first rest ih =>
    cases rest with
    | nil => exact .inr ⟨first, mem_cons_self, by simpa [joinSegments] using hc⟩
    | cons next rest =>
      rw [joinSegments_cons_cons, mem_append, mem_cons] at hc
      rcases hc with hc | rfl | hc
      · exact .inr ⟨first, mem_cons_self, hc⟩
      · exact .inl rfl
      · rcases ih hc with hdot | ⟨seg, hseg, hc⟩
        · exact .inl hdot
        · exact .inr ⟨seg, mem_cons_of_mem first hseg, hc⟩

theorem splitOnP_eq_splitOn {text : List Char} (h : ':' ∉ text) :
    text.splitOnP (fun c => c = '.' ∨ c = ':') = text.splitOn '.' := by
  induction text with
  | nil => rfl
  | cons c text ih =>
    obtain ⟨hc, htext⟩ : ':' ≠ c ∧ ':' ∉ text := by simpa [not_or] using h
    rw [splitOnP_cons_eq_if_modifyHead, splitOn_cons_eq_if_modifyHead, ih htext]
    simp [Ne.symm hc]

theorem splitSegments_channelOf (hpath : path ≠ []) (hwords : ∀ seg ∈ path, Word seg) :
    splitSegments (channelOf path) = path := by
  have hcolon : ':' ∉ joinSegments '.' path := by
    intro hmem
    obtain ⟨seg, hseg, hc⟩ := (mem_joinSegments hmem).resolve_left (by decide)
    exact ((hwords seg hseg).2 ':' hc).2.1 rfl
  rw [splitSegments, channelOf, String.toList_ofList, splitOnP_eq_splitOn hcolon]
  exact splitOn_intercalate '.' (fun seg hseg hc => ((hwords seg hseg).2 '.' hc).1 rfl) hpath

theorem concrete_channelOf (hpath : path ≠ []) (hwords : ∀ seg ∈ path, Word seg) :
    Concrete (channelOf path) := by
  constructor
  · refine decide_eq_false fun hstar => ?_
    rw [channelOf, String.toList_ofList] at hstar
    rcases mem_joinSegments hstar with hdot | ⟨seg, hseg, hc⟩
    · exact absurd hdot (by decide)
    · exact ((hwords seg hseg).2 '*' hc).2.2 rfl
  · rw [validTopic, splitSegments_channelOf hpath hwords]
    exact validSegments_of_words hwords

theorem matchPath_append {words pattern topic : List Segment} (hwords : ∀ seg ∈ words, Word seg) :
    matchPath (words ++ pattern) topic = true ↔
      ∃ rest, topic = words ++ rest ∧ matchPath pattern rest = true := by
  induction words generalizing topic with
  | nil => simp
  | cons first words ih =>
    have hfirst := hwords first mem_cons_self
    have hrest : ∀ seg ∈ words, Word seg := fun seg hseg =>
      hwords seg (mem_cons_of_mem first hseg)
    rw [cons_append]
    cases topic with
    | nil => simp [matchPath, hfirst.ne_multiWildcard]
    | cons word topic =>
      simp only [matchPath, hfirst.ne_multiWildcard, hfirst.ne_wildcard, decide_false,
        Bool.false_and,
        Bool.or_false, Bool.false_or, Bool.and_eq_true, decide_eq_true_eq, ih hrest,
        cons_append, cons.injEq]
      constructor
      · rintro ⟨rfl, rest, rfl, hmatch⟩
        exact ⟨rest, ⟨rfl, rfl⟩, hmatch⟩
      · rintro ⟨rest, ⟨rfl, rfl⟩, hmatch⟩
        exact ⟨rfl, rest, rfl, hmatch⟩

end MessageLoop.Topics
