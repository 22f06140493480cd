import Mathlib.Data.List.Infix

/-!
Self-delimiting codes: values written one after the other, with nothing in between, and read back
by a reader that takes one value at a time off the front of its input.
-/

namespace Delimited

universe u v
variable {α : Type u} {β : Type v}

/-- Reads values until the reader refuses; `fuel` bounds their number. -/
def readUpTo (read : List β → Option (α × List β)) : Nat → List β → List α
  | 0, _ => []
  | fuel + 1, bs =>
    match read bs with
    | some (a, rest) => a :: readUpTo read fuel rest
    | none => []

def readAll (read : List β → Option (α × List β)) (bs : List β) : List α :=
  readUpTo read bs.length bs

/-- The reader of a code. It may refuse a value that it could read, but it takes no other value in
its place and it reads nothing from a part of a value. -/
structure Reads (read : List β → Option (α × List β)) (encode : α → List β) (valid : α → Prop) :
    Prop where
  shrinks : ∀ bs a rest, read bs = some (a, rest) → rest.length < bs.length
  whole : ∀ a rest, valid a →
    read (encode a ++ rest) = some (a, rest) ∨ read (encode a ++ rest) = none
  part : ∀ a bs, valid a → bs <+: encode a → bs ≠ encode a → read bs = none
  nil : read [] = none

variable {read : List β → Option (α × List β)} {encode : α → List β} {valid : α → Prop}

theorem readUpTo_of_le (h : ∀ bs a rest, read bs = some (a, rest) → rest.length < bs.length)
    {fuel : Nat} {bs : List β} (hfuel : bs.length ≤ fuel) :
    readUpTo read fuel bs = readAll read bs := by
  unfold readAll
  -- Both fuels cover the input, and stay so because every value takes something off it.
  suffices hboth : ∀ (j k : Nat) (bs : List β), bs.length ≤ j → bs.length ≤ k →
      readUpTo read j bs = readUpTo read k bs from
    hboth fuel bs.length bs hfuel (Nat.le_refl _)
  have hzero : ∀ bs : List β, bs.length ≤ 0 → read bs = none := by
    intro bs hbs
    cases hread : read bs with
    | none => rfl
    | some r => exact absurd (h bs r.1 r.2 hread) (by omega)
  intro j
  induction j with
  | zero =>
    intro k bs hj _
    cases k with
    | zero => rfl
    | succ k => simp [readUpTo, hzero bs hj]
  | succ j ih =>
    intro k bs hj hk
    cases k with
    | zero => simp [readUpTo, hzero bs hk]
    | succ k =>
      cases hread : read bs with
      | none => simp [readUpTo, hread]
      | some r =>
        have hlt := h bs r.1 r.2 hread
        simp only [readUpTo, hread]
        rw [ih k r.2 (by omega) (by omega)]

namespace Reads

theorem readAll_some (h : Reads read encode valid) {bs rest : List β} {a : α}
    (hread : read bs = some (a, rest)) : readAll read bs = a :: readAll read rest := by
  have hlt := h.shrinks bs a rest hread
  rw [← readUpTo_of_le h.shrinks (Nat.le_succ bs.length), readUpTo, hread]
  simp only
  rw [readUpTo_of_le h.shrinks (by omega)]

theorem readAll_none (h : Reads read encode valid) {bs : List β} (hread : read bs = none) :
    readAll read bs = [] := by
  rw [← readUpTo_of_le h.shrinks (Nat.le_succ bs.length), readUpTo, hread]

theorem readAll_append (h : Reads read encode valid) {as : List α} {last : List β}
    (has : ∀ a ∈ as, valid a)
    (hlast : last = [] ∨ ∃ a, valid a ∧ last <+: encode a ∧ last ≠ encode a) :
    readAll read (as.flatMap encode ++ last) <+: as := by
  induction as with
  | nil =>
    have hnone : read last = none := by
      rcases hlast with rfl | ⟨a, ha, hpart, hne⟩
      · exact h.nil
      · exact h.part a last ha hpart hne
    simp [h.readAll_none hnone]
  | cons a as ih =>
    rw [List.flatMap_cons, List.append_assoc]
    rcases h.whole a (as.flatMap encode ++ last) (has a List.mem_cons_self) with hread | hread
    · rw [h.readAll_some hread, List.cons_prefix_cons]
      exact ⟨rfl, ih fun b hb => has b (List.mem_cons_of_mem a hb)⟩
    · rw [h.readAll_none hread]
      exact List.nil_prefix

end Reads

end Delimited
