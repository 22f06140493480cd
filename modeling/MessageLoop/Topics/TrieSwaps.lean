import MessageLoop.Topics.TrieConcurrent
import MessageLoop.Topics.TrieProgress

/-!
What a swap keeps if the C-node it replaces is the one that was loaded: a branch set by `Subscribe`,
a subscriber taken off by `Unsubscribe`, and branches trimmed by `clean` and `contract`.
-/

namespace MessageLoop.Trie.Concurrent

open Topics LinkedTrie List

variable {σ : Type}

section Changes

/-- A swap of the main node of `j` that keeps the given pairs. Of the I-nodes that a call may stand
at, it takes at most `cut` out of the trie without a T-node. -/
structure Changes (nodes nodes' : Nodes σ) (loc loc' : Nat → List Segment) (kept : List (Pair σ))
    (cut : Option Nat) (j : Nat) : Prop where
  length : nodes.length ≤ nodes'.length
  labels : ∀ {k}, k < nodes.length → loc' k = loc k
  located : Located nodes'.length loc' (store nodes')
  rooted : Rooted nodes'
  others : ∀ {k}, k < nodes.length → k ≠ j → nodes'.main k = nodes.main k
  tombed : ∀ {k}, k < nodes.length → nodes.tombed k = true → nodes'.tombed k = true
  linked : ∀ {k}, k < nodes.length → cut ≠ some k → walk (store nodes) root (loc k) = some k →
    walk (store nodes') root (loc k) = some k ∨ nodes'.tombed k = true
  items : ∀ {k p x}, k < nodes.length → (loc k ++ p, x) ∈ kept → x ∈ items (store nodes) k p →
    x ∈ items (store nodes') k p

variable {nodes nodes' : Nodes σ} {loc : Nat → List Segment} {kept : List (Pair σ)} {j : Nat}
variable {cn : CNode σ} {word : Segment} {words : List Segment} {sub : σ}

theorem lt_of_store {i : Nat} {w : Segment} {l : Link σ} (h : store nodes i w = some l) :
    i < nodes.length := by
  obtain ⟨cn, br, hmain, -, -⟩ := store_eq_some.mp h
  exact lt_of_main hmain

theorem tombed_of_others (hmain : nodes.main j = .cNode cn)
    (hothers : ∀ {k}, k < nodes.length → k ≠ j → nodes'.main k = nodes.main k) {k : Nat}
    (hk : k < nodes.length) (htombed : nodes.tombed k = true) : nodes'.tombed k = true := by
  have hne : k ≠ j := by
    rintro rfl
    rw [tombed_iff, hmain] at htombed
    cases htombed
  rw [tombed_iff, hothers hk hne]
  exact tombed_iff.mp htombed

section Insertion

theorem inserted_insertion (hmain : nodes.main j = .cNode cn)
    (hnone : words ≠ [] → (cn.lookup word).bind Branch.iNode = none) (sub : σ) :
    Inserted nodes sub j none word words (insertion nodes sub j cn word words, true) := by
  have hlast := @Inserted.last _ nodes sub j none word cn hmain
  have hbelow := @Inserted.below _ nodes sub j none word cn words hmain
  unfold insertion
  cases hbr : cn.lookup word with
  | none =>
    rw [hbr] at hlast hbelow
    cases words with
    | nil => exact hlast
    | cons next words => exact hbelow (cons_ne_nil next words) rfl
  | some br =>
    rw [hbr] at hlast hbelow hnone
    cases words with
    | nil =>
      simp only [CNode.updated, hbr]
      exact hlast
    | cons next words =>
      exact hbelow (cons_ne_nil next words) (hnone (cons_ne_nil next words))

theorem link_of_insert {new : Branch σ} (hmain : nodes.main j = .cNode cn)
    (hgrows : nodes <+: nodes') (hsubs : ∀ x ∈ subsOf (cn.lookup word), x ∈ new.subs)
    (hchild : ∀ c, (cn.lookup word).bind Branch.iNode = some c → new.iNode = some c) {i : Nat}
    {w : Segment} {l : Link σ} (hl : store nodes i w = some l) :
    ∃ l', store (nodes'.set j (.cNode (cn.insert word new))) i w = some l' ∧
      (∀ x ∈ l.items, x ∈ l'.items) ∧ ∀ c, l.child = some c → l'.child = some c := by
  by_cases hij : i = j
  · subst hij
    have hself := main_set_self (m := .cNode (cn.insert word new))
      ((lt_of_main hmain).trans_le hgrows.length_le)
    rw [store_of_main hmain, Option.map_eq_some_iff] at hl
    obtain ⟨br, hbr, rfl⟩ := hl
    change cn.lookup w = some br at hbr
    by_cases hw : w = word
    · subst hw
      rw [hbr] at hsubs hchild
      refine ⟨new.link, ?_, hsubs, hchild⟩
      rw [store_of_main hself]
      simp [MainNode.branches]
    · refine ⟨br.link, ?_, fun _ h => h, fun _ h => h⟩
      rw [store_of_main hself]
      simp [MainNode.branches, AList.lookup_insert_ne hw, hbr]
  · refine ⟨l, ?_, fun _ h => h, fun _ h => h⟩
    rw [store_write hgrows i (lt_of_store hl) hij]
    exact hl

variable (hloc : Located nodes.length loc (store nodes))
include hloc

theorem Changes.refl (hroot : Rooted nodes) :
    Changes nodes nodes loc loc kept none j where
  length := le_refl _
  labels := fun _ => rfl
  located := hloc
  rooted := hroot
  others := fun _ _ => rfl
  tombed := fun _ h => h
  linked := fun _ _ h => .inl h
  items := fun _ _ h => h

theorem changes_insert {new : Branch σ} {loc' : Nat → List Segment} (hroot : Rooted nodes)
    (hmain : nodes.main j = .cNode cn) (hgrows : nodes <+: nodes')
    (hsubs : ∀ x ∈ subsOf (cn.lookup word), x ∈ new.subs)
    (hchild : ∀ c, (cn.lookup word).bind Branch.iNode = some c → new.iNode = some c)
    (hlabels : ∀ k < nodes.length, loc' k = loc k)
    (hloc' : Located (nodes'.set j (.cNode (cn.insert word new))).length loc'
      (store (nodes'.set j (.cNode (cn.insert word new))))) :
    Changes nodes (nodes'.set j (.cNode (cn.insert word new))) loc loc' kept none j := by
  have hlink {i w l} (hl : store nodes i w = some l) := link_of_insert hmain hgrows hsubs hchild hl
  have hothers : ∀ {k}, k < nodes.length → k ≠ j →
      Nodes.main (nodes'.set j (.cNode (cn.insert word new))) k = nodes.main k := by
    intro k hk hne
    obtain ⟨more, rfl⟩ := hgrows
    rw [main_set_ne hne, main_append hk]
  refine ⟨?_, fun hk => hlabels _ hk, hloc', hroot.write hgrows j _, hothers,
    tombed_of_others hmain hothers, ?_, ?_⟩
  · rw [length_set]
    exact hgrows.length_le
  · intro k _ _ hwalk
    refine (walk_cut (P := fun _ => False) ?_ (fun h => h.elim) hwalk).imp id False.elim
    intro i w l c hl hc
    obtain ⟨l', hl', -, hkeep⟩ := hlink hl
    exact .inl ⟨l', hl', hkeep c hc⟩
  · intro k p x _ hkept hx
    refine hloc.items_keep (P := fun p x => (p, x) ∈ kept) ?_ ?_ hkept hx
    · intro i w l x hl hx _
      obtain ⟨l', hl', hkeep, -⟩ := hlink hl
      exact ⟨l', hl', hkeep x hx⟩
    · intro i w l c p x hl hc _ _
      obtain ⟨l', hl', -, hkeep⟩ := hlink hl
      exact ⟨l', hl', hkeep c hc⟩

theorem changes_inserted {parent : Option Nat} {done : Nodes σ × Bool} (hroot : Rooted nodes)
    (h : Inserted nodes sub j parent word words done) (hdone : done.2 = true) :
    ∃ loc', Changes nodes done.1 loc loc' kept none j := by
  obtain ⟨loc', hlabels, hloc'⟩ := h.located hloc hdone
  cases h with
  | tombed => cases hdone
  | present => exact ⟨loc, .refl hloc hroot⟩
  | last hmain =>
    refine ⟨loc', changes_insert hloc hroot hmain prefix_rfl ?_ (fun c hc => hc) hlabels hloc'⟩
    exact fun x hx => mem_cons_of_mem _ hx
  | below hmain hrest hnone =>
    refine ⟨loc', changes_insert hloc hroot hmain (grown_newCNode nodes hrest sub).grows
      (fun x hx => hx) ?_ hlabels hloc'⟩
    intro c hc
    rw [hnone] at hc
    cases hc

end Insertion

section Removal
variable [DecidableEq σ] {br : Branch σ}

theorem link_of_removed (hmain : nodes.main j = .cNode cn) (hbr : cn.lookup word = some br)
    {i : Nat} {w : Segment} {l : Link σ} (hl : store nodes i w = some l) :
    (∀ x ∈ l.items, (i = j → w = word → x ≠ sub) →
      ∃ l', store (nodes.set j (toContracted (cn.removed word sub) j)) i w = some l' ∧
        x ∈ l'.items) ∧
    ∀ c, l.child = some c →
      ∃ l', store (nodes.set j (toContracted (cn.removed word sub) j)) i w = some l' ∧
        l'.child = some c := by
  by_cases hij : i = j
  · subst hij
    have hself := main_set_self (m := toContracted (cn.removed word sub) i) (lt_of_main hmain)
    rw [store_of_main hmain, Option.map_eq_some_iff] at hl
    obtain ⟨old, hold, rfl⟩ := hl
    change cn.lookup w = some old at hold
    rw [store_of_main hself, lookup_toContracted]
    by_cases hw : w = word
    · subst hw
      cases hbr.symm.trans hold
      rw [lookup_removed hbr]
      constructor
      · intro x hx hne
        have hx' : x ∈ (br.removed sub).subs := by
          simp only [Branch.removed, mem_filter, decide_eq_true_eq]
          exact ⟨hx, hne rfl rfl⟩
        rw [if_neg fun h => ne_nil_of_mem hx' h.1]
        exact ⟨_, rfl, hx'⟩
      · intro c hc
        have hc' : (br.removed sub).iNode = some c := hc
        rw [if_neg fun h => by rw [hc'] at h; cases h.2]
        exact ⟨_, rfl, hc'⟩
    · rw [lookup_removed_ne hw, hold]
      exact ⟨fun x hx _ => ⟨_, rfl, hx⟩, fun c hc => ⟨_, rfl, hc⟩⟩
  · rw [store_congr (main_set_ne hij)]
    exact ⟨fun x hx _ => ⟨l, hl, hx⟩, fun c hc => ⟨l, hl, hc⟩⟩

theorem changes_removed (hloc : Located nodes.length loc (store nodes)) (hroot : Rooted nodes)
    (hmain : nodes.main j = .cNode cn) (hbr : cn.lookup word = some br)
    (hnot : (loc j ++ [word], sub) ∉ kept) :
    Changes nodes (nodes.set j (toContracted (cn.removed word sub) j)) loc loc kept none j := by
  have hothers : ∀ {k}, k < nodes.length → k ≠ j →
      Nodes.main (nodes.set j (toContracted (cn.removed word sub) j)) k = nodes.main k :=
    fun _ hne => main_set_ne hne
  refine ⟨by simp, fun _ => rfl, ?_, hroot.contracted _ j, hothers, tombed_of_others hmain hothers,
    ?_, ?_⟩
  · rw [length_set]
    exact hloc.cut (child_of_set hmain (children_of_removed hbr))
  · intro k _ _ hwalk
    refine (walk_cut (P := fun _ => False) ?_ (fun h => h.elim) hwalk).imp id False.elim
    intro i w l c hl hc
    exact .inl ((link_of_removed hmain hbr hl).2 c hc)
  · intro k p x _ hkept hx
    refine hloc.items_keep (P := fun p x => (p, x) ∈ kept) ?_ ?_ hkept hx
    · intro i w l x hl hx hkeep
      refine (link_of_removed hmain hbr hl).1 x hx ?_
      rintro rfl rfl rfl
      exact hnot hkeep
    · intro i w l c p x hl hc _ _
      exact (link_of_removed hmain hbr hl).2 c hc

end Removal

section Trimming

/-- What has become of a branch: its subscribers stay, and so does its I-node, unless that is a
T-node or the one that is cut off. -/
structure Trims (nodes : Nodes σ) (cut : Option Nat) (br : Branch σ) (left : Option (Branch σ)) :
    Prop where
  subs : ∀ x ∈ br.subs, ∃ new, left = some new ∧ x ∈ new.subs
  child : ∀ c, br.iNode = some c →
    (∃ new, left = some new ∧ new.iNode = some c) ∨ nodes.tombed c = true ∨ cut = some c

def Hollow (nodes : Nodes σ) (i : Nat) : Prop :=
  ∀ w br, (nodes.main i).branches.lookup w = some br → prunable nodes br = true

theorem items_of_hollow {i : Nat} (h : Hollow nodes i) (p : List Segment) :
    items (store nodes) i p = [] := by
  cases p with
  | nil => rfl
  | cons w rest =>
    rw [items_cons]
    cases hbr : (nodes.main i).branches.lookup w with
    | none =>
      rw [store, hbr]
      rfl
    | some br =>
      rw [store, hbr]
      exact via_of_prunable (h w br hbr) rest

theorem tombed_of_prunable {br : Branch σ} {c : Nat} (h : prunable nodes br = true)
    (hc : br.iNode = some c) : nodes.tombed c = true := by
  simp only [prunable, Bool.and_eq_true, hc, Option.all_some] at h
  exact h.2

variable {left : CNode σ} {cut : Option Nat}

theorem link_of_trim (hmain : nodes.main j = .cNode cn)
    (htrims : ∀ w br, cn.lookup w = some br → Trims nodes cut br (left.lookup w)) {i : Nat}
    {w : Segment} {l : Link σ} (hl : store nodes i w = some l) :
    (∀ x ∈ l.items, ∃ l', store (nodes.set j (.cNode left)) i w = some l' ∧ x ∈ l'.items) ∧
    ∀ c, l.child = some c →
      (∃ l', store (nodes.set j (.cNode left)) i w = some l' ∧ l'.child = some c) ∨
        nodes.tombed c = true ∨ cut = some c := by
  by_cases hij : i = j
  · subst hij
    have hself := main_set_self (m := .cNode left) (lt_of_main hmain)
    have hnew : ∀ new, left.lookup w = some new →
        store (nodes.set i (.cNode left)) i w = some new.link :=
      fun new hnew => store_eq_some.mpr ⟨left, new, hself, hnew, rfl⟩
    rw [store_of_main hmain, Option.map_eq_some_iff] at hl
    obtain ⟨br, hbr, rfl⟩ := hl
    have htrim := htrims w br hbr
    constructor
    · intro x hx
      obtain ⟨new, hleft, hx'⟩ := htrim.subs x hx
      exact ⟨new.link, hnew new hleft, hx'⟩
    · intro c hc
      refine (htrim.child c hc).imp ?_ id
      rintro ⟨new, hleft, hc'⟩
      exact ⟨new.link, hnew new hleft, hc'⟩
  · rw [store_congr (main_set_ne hij)]
    exact ⟨fun x hx => ⟨l, hl, hx⟩, fun c hc => .inl ⟨l, hl, hc⟩⟩

theorem changes_trim (hloc : Located nodes.length loc (store nodes)) (hroot : Rooted nodes)
    (hmain : nodes.main j = .cNode cn)
    (htrims : ∀ w br, cn.lookup w = some br → Trims nodes cut br (left.lookup w))
    (hchild : ∀ w br c, left.lookup w = some br → br.iNode = some c →
      ∃ old, cn.lookup w = some old ∧ old.iNode = some c)
    (hcut : ∀ c, cut = some c → Hollow nodes c) :
    Changes nodes (nodes.set j (.cNode left)) loc loc kept cut j := by
  have hothers : ∀ {k}, k < nodes.length → k ≠ j →
      Nodes.main (nodes.set j (.cNode left)) k = nodes.main k := fun _ hne => main_set_ne hne
  have htombed {k} (hk : k < nodes.length) := tombed_of_others hmain hothers hk
  refine ⟨by simp, fun _ => rfl, ?_, hroot.write prefix_rfl j _, hothers, htombed, ?_, ?_⟩
  · rw [length_set]
    exact hloc.cut (child_of_set hmain hchild)
  · intro k hk hne hwalk
    -- A walk that is lost has passed a T-node or `cut`, and has gone on through T-nodes only.
    have hbelow : ∀ {i w l c}, (nodes.tombed i = true ∨ cut = some i) → store nodes i w = some l →
        l.child = some c → nodes.tombed c = true ∨ cut = some c := by
      rintro i w l c (hi | hi) hl hc
      · rw [store_of_main (tombed_iff.mp hi)] at hl
        cases hl
      · obtain ⟨br, hbr, rfl⟩ := Option.map_eq_some_iff.mp hl
        exact .inl (tombed_of_prunable (hcut i hi w br hbr) hc)
    rcases walk_cut (P := fun c => nodes.tombed c = true ∨ cut = some c)
      (fun hl hc => (link_of_trim hmain htrims hl).2 _ hc) hbelow hwalk with hwalk | hk' | hk'
    · exact .inl hwalk
    · exact .inr (htombed hk hk')
    · exact absurd hk' hne
  · intro k p x _ hkept hx
    refine hloc.items_keep (P := fun p x => (p, x) ∈ kept) ?_ ?_ hkept hx
    · intro i w l x hl hx _
      exact (link_of_trim hmain htrims hl).1 x hx
    · intro i w l c p x hl hc _ hx
      rcases (link_of_trim hmain htrims hl).2 c hc with hlink | hc' | hc'
      · exact hlink
      · rw [items_of_tombed hc'] at hx
        cases hx
      · rw [items_of_hollow (hcut c hc')] at hx
        cases hx

end Trimming

end Changes

end MessageLoop.Trie.Concurrent
