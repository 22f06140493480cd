import Mathlib.Data.Finset.Lattice.Fold

/-!
Tries whose nodes are cells that refer to one another.

A store gives, for a cell and a word, the link under that word: the items kept there and the cell
below. A label of every cell with the path it was made for keeps apart what lies below different
words, so that writing one cell changes only the paths that go through it.
-/

namespace LinkedTrie

open List Option

universe u v
variable {κ : Type u} {σ : Type v}

structure Link (σ : Type v) where
  child : Option Nat
  items : List σ

abbrev Store (κ : Type u) (σ : Type v) := Nat → κ → Option (Link σ)

def items (t : Store κ σ) : Nat → List κ → List σ
  | _, [] => []
  | i, w :: rest =>
    match t i w with
    | none => []
    | some l => if rest.isEmpty then l.items else l.child.elim [] fun j => items t j rest

/-- The items at the end of a path whose first word has led to the given link. -/
def via (t : Store κ σ) (l : Option (Link σ)) (rest : List κ) : List σ :=
  l.elim [] fun l => if rest.isEmpty then l.items else l.child.elim [] fun j => items t j rest

def walk (t : Store κ σ) : Nat → List κ → Option Nat
  | i, [] => some i
  | i, w :: rest => (t i w).bind fun l => l.child.bind fun j => walk t j rest

/-- Links lead to cells below `n`, and a cell is labelled with the path to it. -/
structure Located (n : Nat) (loc : Nat → List κ) (t : Store κ σ) : Prop where
  bound : ∀ {i w l j}, t i w = some l → l.child = some j → j < n
  path : ∀ {i w l j}, t i w = some l → l.child = some j → loc j = loc i ++ [w]

variable {t t' : Store κ σ} {n i j : Nat} {loc : Nat → List κ} {w : κ} {rest p q : List κ}

theorem items_cons : items t i (w :: rest) = via t (t i w) rest := by
  unfold via
  rw [items]
  cases t i w <;> rfl

@[simp] theorem via_none : via t none rest = [] := rfl

@[simp] theorem via_nil (l : Link σ) : via t (some l) [] = l.items := rfl

theorem via_cons (l : Link σ) :
    via t (some l) (w :: rest) = l.child.elim [] (items t · (w :: rest)) :=
  rfl

theorem items_congr (h : ∀ i w rest, via t (t' i w) rest = via t (t i w) rest) :
    items t' i p = items t i p := by
  induction p generalizing i with
  | nil => rfl
  | cons w rest ih =>
    rw [items_cons, items_cons, ← h i w rest]
    unfold via
    simp only [ih]

theorem items_append {x : κ} (hwalk : walk t i q = some j) :
    items t i (q ++ x :: p) = items t j (x :: p) := by
  induction q generalizing i with
  | nil =>
    cases hwalk
    rfl
  | cons w rest ih =>
    simp only [walk, bind_eq_some_iff] at hwalk
    obtain ⟨l, hl, k, hk, hrest⟩ := hwalk
    rw [cons_append, items_cons, hl]
    simpa [via, hk] using ih hrest

section
variable (h : Located n loc t)
include h

theorem Located.walk_path (hwalk : walk t i q = some j) :
    loc j = loc i ++ q := by
  induction q generalizing i with
  | nil =>
    cases hwalk
    exact (append_nil _).symm
  | cons w rest ih =>
    simp only [walk, bind_eq_some_iff] at hwalk
    obtain ⟨l, hl, k, hk, hrest⟩ := hwalk
    rw [ih hrest, h.path hl hk, append_assoc, singleton_append]

theorem Located.off_child {l : Link σ} {k : Nat} (hl : t i w = some l) (hk : l.child = some k)
    (hoff : ∀ q, q <+: w :: rest → q ≠ w :: rest → loc i ++ q ≠ loc j) :
    ∀ q, q <+: rest → q ≠ rest → loc k ++ q ≠ loc j := by
  intro q hq hqne
  rw [h.path hl hk, append_assoc, singleton_append]
  refine hoff (w :: q) (cons_prefix_cons.mpr ⟨rfl, hq⟩) ?_
  intro heq
  exact hqne (cons.inj heq).2

theorem Located.items_keep {P : List κ → σ → Prop} {x : σ}
    (hitems : ∀ {i w l x}, t i w = some l → x ∈ l.items → P (loc i ++ [w]) x →
      ∃ l', t' i w = some l' ∧ x ∈ l'.items)
    (hchild : ∀ {i w l j p x}, t i w = some l → l.child = some j → P (loc j ++ p) x →
      x ∈ items t j p → ∃ l', t' i w = some l' ∧ l'.child = some j) (hkeeps : P (loc i ++ p) x)
    (hx : x ∈ items t i p) : x ∈ items t' i p := by
  induction p generalizing i with
  | nil => exact hx
  | cons w rest ih =>
    rw [items_cons] at hx ⊢
    cases hl : t i w with
    | none =>
      rw [hl] at hx
      cases hx
    | some l =>
      rw [hl] at hx
      cases rest with
      | nil =>
        obtain ⟨l', hl', hx'⟩ := hitems hl hx hkeeps
        rw [hl']
        exact hx'
      | cons w' rest =>
        rw [via_cons] at hx
        cases hj : l.child with
        | none =>
          rw [hj] at hx
          cases hx
        | some j =>
          rw [hj] at hx
          rw [append_cons, ← h.path hl hj] at hkeeps
          obtain ⟨l', hl', hj'⟩ := hchild hl hj hkeeps hx
          rw [hl', via_cons, hj']
          exact ih hkeeps hx

variable (hsame : ∀ k < n, k ≠ j → t' k = t k)
include hsame

theorem Located.items_frame (hi : i < n)
    (hoff : ∀ q, q <+: p → q ≠ p → loc i ++ q ≠ loc j) : items t' i p = items t i p := by
  induction p generalizing i with
  | nil => rfl
  | cons w rest ih =>
    have hne : i ≠ j := by
      rintro rfl
      exact hoff [] nil_prefix (cons_ne_nil _ _).symm (append_nil _)
    rw [items_cons, items_cons, hsame i hi hne]
    cases hl : t i w with
    | none => rfl
    | some l =>
      cases rest with
      | nil => rfl
      | cons x rest =>
        rw [via_cons, via_cons]
        cases hk : l.child with
        | none => rfl
        | some k => exact ih (h.bound hl hk) (h.off_child hl hk hoff)

theorem Located.via_below {l : Link σ}
    (hl : t j w = some l) : via t' (some l) rest = via t (some l) rest := by
  cases rest with
  | nil => rfl
  | cons x rest =>
    rw [via_cons, via_cons]
    cases hk : l.child with
    | none => rfl
    | some k =>
      refine h.items_frame hsame (h.bound hl hk) ?_
      intro q _ _ heq
      rw [h.path hl hk, append_assoc] at heq
      have hlength := congrArg length heq
      simp at hlength

theorem Located.walk_frame (hi : i < n)
    (hoff : ∀ q, q <+: p → q ≠ p → loc i ++ q ≠ loc j) : walk t' i p = walk t i p := by
  induction p generalizing i with
  | nil => rfl
  | cons w rest ih =>
    have hne : i ≠ j := by
      rintro rfl
      exact hoff [] nil_prefix (cons_ne_nil _ _).symm (append_nil _)
    simp only [walk, hsame i hi hne]
    refine bind_congr fun l hl => bind_congr fun k hk => ?_
    exact ih (h.bound hl hk) (h.off_child hl hk hoff)

theorem Located.walk_write (hi : i < n)
    (hwalk : walk t i q = some j) (hp : p <+: q) : walk t' i p = walk t i p := by
  refine h.walk_frame hsame hi ?_
  intro p' hp' hne heq
  rw [h.walk_path hwalk] at heq
  obtain rfl := append_cancel_left heq
  exact hne (hp'.eq_of_length_le hp.length_le)

theorem Located.items_through (hi : i < n) (hwalk : walk t i q = some j) :
    items t' i (q ++ w :: rest) = via t' (t' j w) rest := by
  rw [items_append ((h.walk_write hsame hi hwalk prefix_rfl).trans hwalk), items_cons]

theorem Located.items_write (hi : i < n) (hwalk : walk t i q = some j)
    (hkeep : ∀ w rest, p = q ++ w :: rest → t' j w = t j w) : items t' i p = items t i p := by
  by_cases hpass : ∃ w rest, p = q ++ w :: rest
  · obtain ⟨w, rest, rfl⟩ := hpass
    rw [h.items_through hsame hi hwalk, items_append hwalk, items_cons, hkeep w rest rfl]
    cases hl : t j w with
    | none => rfl
    | some l => exact h.via_below hsame hl
  · refine h.items_frame hsame hi ?_
    intro q' hq' hne heq
    rw [h.walk_path hwalk] at heq
    obtain rfl := append_cancel_left heq
    obtain ⟨more, rfl⟩ := hq'
    cases more with
    | nil => exact hne (append_nil _).symm
    | cons w rest => exact hpass ⟨w, rest, rfl⟩

end

theorem walk_cut {P : Nat → Prop}
    (hcut : ∀ {i w l j}, t i w = some l → l.child = some j →
      (∃ l', t' i w = some l' ∧ l'.child = some j) ∨ P j)
    (hbelow : ∀ {i w l j}, P i → t i w = some l → l.child = some j → P j)
    (hwalk : walk t i q = some j) : walk t' i q = some j ∨ P j := by
  have hdoomed : ∀ {i q}, P i → walk t i q = some j → P j := by
    intro i q hi hwalk
    induction q generalizing i with
    | nil => exact some.inj hwalk ▸ hi
    | cons w rest ih =>
      simp only [walk, bind_eq_some_iff] at hwalk
      obtain ⟨l, hl, k, hk, hrest⟩ := hwalk
      exact ih (hbelow hi hl hk) hrest
  induction q generalizing i with
  | nil => exact .inl hwalk
  | cons w rest ih =>
    simp only [walk, bind_eq_some_iff] at hwalk ⊢
    obtain ⟨l, hl, k, hk, hrest⟩ := hwalk
    rcases hcut hl hk with ⟨l', hl', hk'⟩ | hdoom
    · exact (ih hrest).imp (fun hrest' => ⟨l', hl', k, hk', hrest'⟩) id
    · exact .inr (hdoomed hdoom hrest)

section Reach

inductive Reach (t : Store κ σ) (r : Nat) : Nat → Prop where
  | root : Reach t r r
  | link {i j : Nat} {w : κ} {l : Link σ} (h : Reach t r i) (hl : t i w = some l)
      (hj : l.child = some j) : Reach t r j

variable {r : Nat} {l : Link σ}

theorem walk_append : walk t i (q ++ p) = (walk t i q).bind (walk t · p) := by
  induction q generalizing i with
  | nil => rfl
  | cons w rest ih =>
    simp only [cons_append, walk, bind_assoc]
    simp only [ih]

theorem Reach.exists_walk (h : Reach t r i) : ∃ q, walk t r q = some i := by
  induction h with
  | root => exact ⟨[], rfl⟩
  | @link _ j w l _ hl hj ih =>
    obtain ⟨q, hq⟩ := ih
    refine ⟨q ++ [w], ?_⟩
    rw [walk_append, hq]
    simp [walk, hl, hj]

theorem Reach.walk (h : Reach t r i) (hwalk : walk t i q = some j) : Reach t r j := by
  induction q generalizing i with
  | nil => exact some.inj hwalk ▸ h
  | cons w rest ih =>
    simp only [LinkedTrie.walk, bind_eq_some_iff] at hwalk
    obtain ⟨l, hl, k, hk, hrest⟩ := hwalk
    exact ih (h.link hl hk) hrest

theorem Reach.lt (h : Reach t r i) (hloc : Located n loc t) (hr : r < n) : i < n := by
  cases h with
  | root => exact hr
  | link _ hl hj => exact hloc.bound hl hj

theorem Located.reach_inj (hloc : Located n loc t) (hi : Reach t r i) (hj : Reach t r j)
    (h : loc i = loc j) : i = j := by
  obtain ⟨p, hp⟩ := hi.exists_walk
  obtain ⟨q, hq⟩ := hj.exists_walk
  rw [hloc.walk_path hp, hloc.walk_path hq] at h
  obtain rfl := append_cancel_left h
  exact some.inj (hp.symm.trans hq)

theorem Located.child_ne_root (hloc : Located n loc t) (hi : Reach t r i) (hl : t i w = some l)
    (hj : l.child = some j) : j ≠ r := by
  rintro rfl
  obtain ⟨q, hq⟩ := hi.exists_walk
  have hlength := congrArg length (hloc.path hl hj)
  rw [hloc.walk_path hq] at hlength
  simp at hlength

theorem Located.parent_unique {i' : Nat} {w' : κ} {l' : Link σ} (hloc : Located n loc t)
    (hi : Reach t r i) (hl : t i w = some l) (hj : l.child = some j) (hi' : Reach t r i')
    (hl' : t i' w' = some l') (hj' : l'.child = some j) : i = i' ∧ w = w' := by
  have hpath : loc i ++ [w] = loc i' ++ [w'] := (hloc.path hl hj).symm.trans (hloc.path hl' hj')
  obtain ⟨hcells, hwords⟩ := append_inj' hpath rfl
  exact ⟨hloc.reach_inj hi hi' hcells, singleton_inj.mp hwords⟩

section Cut

/-! Links are taken away or lose their cell. -/

variable (hsub : ∀ {i w l' j}, t' i w = some l' → l'.child = some j →
  ∃ l, t i w = some l ∧ l.child = some j)
include hsub

theorem Located.cut (hloc : Located n loc t) : Located n loc t' := by
  constructor
  · intro i w l j hl hj
    obtain ⟨old, hold, hchild⟩ := hsub hl hj
    exact hloc.bound hold hchild
  · intro i w l j hl hj
    obtain ⟨old, hold, hchild⟩ := hsub hl hj
    exact hloc.path hold hchild

theorem Reach.of_cut (h : Reach t' r i) : Reach t r i := by
  induction h with
  | root => exact .root
  | link _ hl hj ih =>
    obtain ⟨l, hl, hj⟩ := hsub hl hj
    exact ih.link hl hj

theorem Located.not_reach_of_cut (hloc : Located n loc t) (hi : Reach t r i) (hl : t i w = some l)
    (hj : l.child = some j)
    (hcut : Reach t' r i → ∀ l', t' i w = some l' → l'.child ≠ some j) : ¬ Reach t' r j := by
  intro h
  generalize hk : j = k at h
  cases h with
  | root => exact hloc.child_ne_root hi hl hj hk
  | @link i' _ w' l' h hl' hj' =>
    subst hk
    obtain ⟨old, hold, hchild⟩ := hsub hl' hj'
    obtain ⟨rfl, rfl⟩ := hloc.parent_unique hi hl hj (h.of_cut hsub) hold hchild
    exact hcut h l' hl' hj'

end Cut

/-- Every link has items or leads to a cell, and every cell below the first has links. -/
structure Tight (t : Store κ σ) (r : Nat) : Prop where
  links : ∀ {i w l}, Reach t r i → t i w = some l → l.items ≠ [] ∨ ∃ j, l.child = some j
  cells : ∀ {i}, Reach t r i → i ≠ r → ∃ w l, t i w = some l

/-- Links are taken away or lose their cell, and the cells that are still reached and have changed
have links that lead somewhere. -/
theorem Tight.cut (h : Tight t r) (hsub : ∀ {i w l' j}, t' i w = some l' → l'.child = some j →
      ∃ l, t i w = some l ∧ l.child = some j)
    (hcells : ∀ {i}, Reach t' r i → t' i = t i ∨
      (∀ w l, t' i w = some l → l.items ≠ [] ∨ ∃ j, l.child = some j) ∧
        (i ≠ r → ∃ w l, t' i w = some l)) : Tight t' r := by
  constructor
  · intro i w l hi hl
    rcases hcells hi with hsame | ⟨hlinks, -⟩
    · rw [hsame] at hl
      exact h.links (hi.of_cut hsub) hl
    · exact hlinks w l hl
  · intro i hi hne
    rcases hcells hi with hsame | ⟨-, hlive⟩
    · rw [hsame]
      exact h.cells (hi.of_cut hsub) hne
    · exact hlive hne

theorem Tight.items_ne_nil (h : Tight t r) (hloc : Located n loc t) (hi : Reach t r i)
    (hl : t i w = some l) : ∃ rest, items t i (w :: rest) ≠ [] := by
  have hbound : ∀ k < n, (loc k).length ≤ (Finset.range n).sup fun k => (loc k).length := by
    intro k hk
    exact Finset.le_sup (f := fun k => (loc k).length) (Finset.mem_range.mpr hk)
  generalize (Finset.range n).sup (fun k => (loc k).length) = b at hbound
  generalize hd : b - (loc i).length = d
  induction d using Nat.strong_induction_on generalizing i w l with
  | _ d ih =>
    rcases h.links hi hl with hitems | ⟨j, hj⟩
    · exact ⟨[], by rw [items_cons, hl]; exact hitems⟩
    · obtain ⟨w', l', hl'⟩ := h.cells (hi.link hl hj) (hloc.child_ne_root hi hl hj)
      have hlength := hbound j (hloc.bound hl hj)
      have hlt : b - (loc j).length < d := by
        rw [hloc.path hl hj, length_append, length_singleton] at hlength ⊢
        omega
      obtain ⟨rest, hrest⟩ := ih _ hlt (hi.link hl hj) hl' rfl
      refine ⟨w' :: rest, ?_⟩
      rw [items_cons, hl, via_cons, hj]
      exact hrest

theorem Tight.link_eq_none (h : Tight t r) (hloc : Located n loc t) (hempty : ∀ p, items t r p = [])
    (w : κ) : t r w = none := by
  by_contra hne
  obtain ⟨l, hl⟩ := ne_none_iff_exists'.mp hne
  obtain ⟨rest, hrest⟩ := h.items_ne_nil hloc .root hl
  exact hrest (hempty (w :: rest))

end Reach

end LinkedTrie
