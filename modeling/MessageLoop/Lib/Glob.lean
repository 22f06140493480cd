import Mathlib.Data.List.Infix

/-!
Glob patterns: `*` stands for any text, `?` for one character, `[...]` for one character of a class
with ranges, and a backslash takes the next character literally.
-/

namespace Glob

inductive Token where
  | star
  | one (accepts : Char → Bool)

mutual

def tokens : List Char → List Token
  | [] => []
  | '*' :: rest => .star :: tokens rest
  | '?' :: rest => .one (fun _ => true) :: tokens rest
  | '[' :: '^' :: rest => classTokens true (fun _ => false) rest
  | '[' :: rest => classTokens false (fun _ => false) rest
  | '\\' :: x :: rest => .one (· = x) :: tokens rest
  | x :: rest => .one (· = x) :: tokens rest

/-- The bounds of a range may come in either order. -/
def classTokens (negated : Bool) (accepts : Char → Bool) : List Char → List Token
  | [] => [.one fun c => accepts c != negated]
  | '\\' :: x :: rest => classTokens negated (fun c => accepts c || c = x) rest
  | ']' :: rest => .one (fun c => accepts c != negated) :: tokens rest
  | lo :: '-' :: hi :: rest =>
    classTokens negated (fun c => accepts c || lo ≤ c && c ≤ hi || hi ≤ c && c ≤ lo) rest
  | x :: rest => classTokens negated (fun c => accepts c || c = x) rest

end

def matchTokens : List Token → List Char → Bool
  | [], text => text.isEmpty
  | .star :: rest, text => text.tails.any (matchTokens rest)
  | .one _ :: _, [] => false
  | .one accepts :: rest, c :: text => accepts c && matchTokens rest text

def globMatch (pattern text : List Char) : Bool :=
  matchTokens (tokens pattern) text

/-- A character that, in a pattern, at least matches itself and says nothing about the next one. -/
def Plain (c : Char) : Prop :=
  c ≠ '*' ∧ c ≠ '[' ∧ c ≠ '\\'

instance (c : Char) : Decidable (Plain c) :=
  inferInstanceAs (Decidable (_ ∧ _ ∧ _))

variable {c d : Char} {text pattern : List Char} {m n : Nat} {ts : List Token}

theorem globMatch_star (text : List Char) : globMatch ['*'] text = true := by
  have hnil : [] ∈ text.tails := (List.mem_tails _ _).mpr List.nil_suffix
  simp only [globMatch, tokens, matchTokens, List.any_eq_true]
  exact ⟨[], hnil, rfl⟩

theorem globMatch_cons (hc : Plain c) (h : globMatch pattern text = true) :
    globMatch (c :: pattern) (c :: text) = true := by
  obtain ⟨hstar, hclass, hescape⟩ := hc
  by_cases hany : c = '?'
  · subst hany
    exact h
  · have htokens : tokens (c :: pattern) = .one (· = c) :: tokens pattern := by
      rw [tokens]
      all_goals simp_all
    simpa [globMatch, htokens, matchTokens] using h

theorem globMatch_append {rest : List Char} (htext : ∀ c ∈ text, Plain c)
    (h : globMatch pattern rest = true) : globMatch (text ++ pattern) (text ++ rest) = true := by
  induction text with
  | nil => exact h
  | cons c text ih =>
    apply globMatch_cons (htext c List.mem_cons_self)
    exact ih fun d hd => htext d (List.mem_cons_of_mem c hd)

/-- Tokens that decide on a text of at least `n` characters by its first `n`. -/
def Settled (n : Nat) (ts : List Token) : Prop :=
  ∀ text rest : List Char, n ≤ text.length → matchTokens ts (text ++ rest) = matchTokens ts text

theorem Settled.mono (h : Settled m ts) (hmn : m ≤ n) : Settled n ts :=
  fun text rest hlen => h text rest (hmn.trans hlen)

theorem Settled.cons {accepts : Char → Bool} (h : Settled n ts) :
    Settled (n + 1) (.one accepts :: ts) := by
  rintro (_ | ⟨c, text⟩) rest hlen
  · simp at hlen
  · simp [matchTokens, h text rest (by simpa using hlen)]

theorem settled_star : Settled 0 (tokens ['*']) := by
  intro text rest _
  exact (globMatch_star _).trans (globMatch_star _).symm

theorem settled_nil : Settled 1 [] := by
  rintro (_ | ⟨c, text⟩) rest hlen
  · simp at hlen
  · rfl

/-- A pattern that ends with its only star, behind the character `d`: `n` characters and the star. -/
inductive Open (d : Char) : Nat → List Char → Prop
  | last : Open d 1 [d, '*']
  | cons {n : Nat} {c : Char} {pattern : List Char} (hc : c ≠ '*') (h : Open d n pattern) :
      Open d (n + 1) (c :: pattern)

theorem open_append (d : Char) (h : '*' ∉ text) : Open d (text.length + 1) (text ++ [d, '*']) := by
  induction text with
  | nil => exact .last
  | cons c text ih =>
    obtain ⟨hc, htext⟩ : '*' ≠ c ∧ '*' ∉ text := by simpa [not_or] using h
    exact .cons (Ne.symm hc) (ih htext)

theorem Open.tail (h : Open d n (c :: pattern)) (hc : c ≠ d) :
    ∃ m, n = m + 1 ∧ Open d m pattern := by
  cases h with
  | last => exact absurd rfl hc
  | cons _ h => exact ⟨_, rfl, h⟩

/-- The characters that mean something in a pattern. -/
def special : List Char := ['*', '?', '[', ']', '\\', '^', '-']

/-- The text before the star and the delimiter fixes how many characters are looked at, in and out
of a class. -/
theorem settled_tokens (hd : d ∉ special) :
    (∀ pattern n, Open d n pattern → Settled n (tokens pattern)) ∧
    ∀ negated accepts pattern n, Open d n pattern ∨ 0 < n ∧ (pattern = ['*'] ∨ pattern = []) →
      Settled (n + 1) (classTokens negated accepts pattern) := by
  have hne : ∀ {c : Char}, c ∈ special → c ≠ d := fun hc h => hd (h ▸ hc)
  apply tokens.mutual_induct
  case case1 =>
    intro n h
    cases h
  case case2 =>
    intro pattern _ n h
    cases h with
    | last => exact absurd rfl (hne (by decide))
    | cons hc _ => exact absurd rfl hc
  case case3 =>
    intro pattern ih n h
    obtain ⟨n, rfl, htail⟩ := h.tail (hne (by decide))
    exact (ih n htail).cons
  case case4 =>
    intro pattern ih n h
    obtain ⟨n, rfl, hcaret⟩ := h.tail (hne (by decide))
    obtain ⟨n, rfl, htail⟩ := hcaret.tail (hne (by decide))
    exact (ih n (.inl htail)).mono (by omega)
  case case5 =>
    intro pattern hcaret ih n h
    obtain ⟨n, rfl, htail⟩ := h.tail (hne (by decide))
    rw [tokens]
    · exact ih n (.inl htail)
    · assumption
  case case6 =>
    intro c pattern ih n h
    obtain ⟨n, rfl, _ | ⟨-, h⟩⟩ := h.tail (hne (by decide))
    · exact settled_star.cons.mono (by omega)
    · exact (ih _ h).cons.mono (by omega)
  case case7 =>
    intro c pattern hstar hany hcaret hclass hescape ih n h
    rw [tokens]
    · rcases h with _ | ⟨-, h⟩
      · exact settled_star.cons
      · exact (ih _ h).cons
    all_goals assumption
  case case8 =>
    intro negated accepts n h
    rcases h with h | ⟨hn, -⟩
    · cases h
    · exact settled_nil.cons.mono (by omega)
  case case9 =>
    intro negated accepts c pattern ih n h
    obtain ⟨n, rfl, _ | ⟨-, h⟩⟩ := (h.resolve_right (by simp)).tail (hne (by decide))
    · exact (ih 1 (.inr (by simp))).mono (by omega)
    · exact (ih _ (.inl h)).mono (by omega)
  case case10 =>
    intro negated accepts pattern ih n h
    obtain ⟨n, rfl, htail⟩ := (h.resolve_right (by simp)).tail (hne (by decide))
    exact (ih n htail).cons.mono (by omega)
  case case11 =>
    intro negated accepts lo hi pattern hescape hclose ih n h
    rw [classTokens]
    · rcases h.resolve_right (by simp) with _ | ⟨-, h⟩
      obtain ⟨n, rfl, _ | ⟨-, h⟩⟩ := h.tail (hne (by decide))
      · exact (ih 1 (.inr (by simp))).mono (by omega)
      · exact (ih _ (.inl h)).mono (by omega)
    all_goals assumption
  case case12 =>
    intro negated accepts c pattern hescape hclose hrange ih n h
    rw [classTokens]
    · rcases h with (_ | ⟨-, h⟩) | ⟨hn, h⟩
      · exact ih 1 (.inr (by simp))
      · exact (ih _ (.inl h)).mono (by omega)
      · exact ih n (.inr ⟨hn, by simp_all⟩)
    all_goals assumption

/-- Whether a text followed by a star matches, as a pattern, what begins with that text. -/
theorem globMatch_open_append (hd : d ∉ special) (h : '*' ∉ text) (rest : List Char) :
    globMatch (text ++ [d, '*']) (text ++ [d] ++ rest) =
      globMatch (text ++ [d, '*']) (text ++ [d]) :=
  (settled_tokens hd).1 _ _ (open_append d h) _ rest (by simp)

example : globMatch "a[b-d]*".toList "ac.x".toList = true := by decide
example : globMatch "a[^b]?\\*".toList "acd*".toList = true := by decide

end Glob
