import MessageLoop.Topics.TrieProgress

/-!
Which histories leave nothing behind in the trie matcher.

A removal that empties a node takes the branch to it away, and one node above that if it is empty as
well. What is empty beyond that stays, and so does a branch to a T-node that has subscribers.
-/

namespace MessageLoop.Trie

open Topics LinkedTrie List Option

variable {σ : Type} {nodes nodes' : Nodes σ} {i j k : Nat} {word w : Segment}
variable {words rest q : List Segment} {cn : CNode σ} {br : Branch σ} {sub : σ}
variable {above above' : Option (Nat × Segment)} {pp pp' : Option Nat} {done : Nodes σ × Bool}
variable {l : Link σ}

section Reach
variable {follows : Segment → List Segment}

theorem store_of_lookup (h : (nodes.main i).branches.lookup word = some br) :
    store nodes i word = some br.link := by
  rw [store, h]
  rfl

theorem Meets.reach (h : Meets nodes follows i words k br) (hi : Reach (store nodes) root i) :
    Reach (store nodes) root k := by
  induction h with
  | here => exact hi
  | deeper _ hbr hj _ ih => exact ih (hi.link (store_of_lookup hbr) hj)

theorem not_meets_of_tight (htight : Tight (store nodes) root) (hinv : Inv nodes) :
    ¬ Meets nodes follows root words k br := by
  intro h
  obtain ⟨loc, hloc⟩ := hinv.located
  obtain ⟨w, j, hbr, hj, htombed⟩ := h.branch
  have hk := h.reach .root
  have hl := store_of_lookup hbr
  obtain ⟨w', l, hl'⟩ := htight.cells (hk.link hl hj) (hloc.child_ne_root hk hl hj)
  rw [store_of_main (tombed_iff.mp htombed)] at hl'
  cases hl'

theorem Descends.last (h : Descends nodes i above pp (q ++ [word]) k above' pp') :
    ∃ j cn br above₁ pp₁, Descends nodes i above pp q j above₁ pp₁ ∧ nodes.main j = .cNode cn ∧
      cn.lookup word = some br ∧ br.iNode = some k ∧ above' = some (j, word) ∧
      pp' = above₁.map Prod.fst := by
  induction q generalizing i above pp with
  | nil =>
    cases h with
    | cons hmain hbr hj h =>
      cases h with
      | refl => exact ⟨i, _, _, above, pp, .refl i above pp, hmain, hbr, hj, rfl, rfl⟩
  | cons w q ih =>
    cases h with
    | cons hmain hbr hj h =>
      obtain ⟨l, cn, br, above₁, pp₁, hdescends, hlast⟩ := ih h
      exact ⟨l, cn, br, above₁, pp₁, .cons hmain hbr hj hdescends, hlast⟩

end Reach

section Insert

def Sprouted (n : Nat) (nodes : Nodes σ) : Prop :=
  ∀ k, n ≤ k → k < nodes.length → ∃ word br, nodes.main k = .cNode (AList.singleton word br) ∧
    (br.subs ≠ [] ∨ ∃ c, br.iNode = some c) ∧ ∀ c, br.iNode = some c → n ≤ c

theorem sprouted_self : Sprouted nodes.length nodes :=
  fun _ hk hlt => absurd hlt (not_lt.mpr hk)

theorem sprouted_snoc {n : Nat} (h : Sprouted n nodes) (hbr : br.subs ≠ [] ∨ ∃ c, br.iNode = some c)
    (hchild : ∀ c, br.iNode = some c → n ≤ c) :
    Sprouted n (nodes ++ [MainNode.cNode (AList.singleton word br)]) := by
  intro k hk hlt
  rw [length_append, length_singleton] at hlt
  by_cases hlast : k = nodes.length
  · subst hlast
    exact ⟨word, br, main_append_length, hbr, hchild⟩
  · have hk' : k < nodes.length := by omega
    rw [main_append hk']
    exact h k hk hk'

theorem sprouted_newCNode (nodes : Nodes σ) (hwords : words ≠ []) (sub : σ) :
    Sprouted nodes.length ((newCNode nodes words sub).1 ++ [.cNode (newCNode nodes words sub).2]) ∧
      nodes.length ≤ (newCNode nodes words sub).1.length := by
  induction words with
  | nil => exact absurd rfl hwords
  | cons word words ih =>
    cases words with
    | nil =>
      exact ⟨sprouted_snoc sprouted_self (.inl (cons_ne_nil sub [])) (by simp), le_refl _⟩
    | cons next words =>
      obtain ⟨hbelow, hle⟩ := ih (cons_ne_nil _ _)
      rw [newCNode_cons]
      refine ⟨sprouted_snoc hbelow (.inr ⟨_, rfl⟩) ?_, ?_⟩
      · intro c hc
        exact some.inj hc ▸ hle
      · rw [length_append]
        exact Nat.le_add_right_of_le hle

variable {new : Branch σ}

section Set

/-! A branch is set in a trie without dead branches, with new cells below it or with those that
were below it. -/

variable (htight : Tight (store nodes) root) (hinv : Inv nodes)
variable (hmain : nodes.main j = .cNode cn) (hgrows : nodes <+: nodes')
variable (hfresh : Sprouted nodes.length nodes') (hnew : new.subs ≠ [] ∨ ∃ c, new.iNode = some c)
variable (hchild : ∀ c, new.iNode = some c → nodes.length ≤ c ∨ (cn.lookup word).bind Branch.iNode = some c)
include hmain hgrows in
theorem main_set_branch : Nodes.main (nodes'.set j (.cNode (cn.insert word new))) j =
    .cNode (cn.insert word new) :=
  main_set_self ((lt_of_main hmain).trans_le hgrows.length_le)

include htight hinv hmain hgrows hfresh hnew hchild

theorem link_of_set (hi : Reach (store nodes) root i ∨ nodes.length ≤ i)
    (hl : store (nodes'.set j (.cNode (cn.insert word new))) i w = some l) :
    (l.items ≠ [] ∨ ∃ c, l.child = some c) ∧
      ∀ c, l.child = some c → Reach (store nodes) root c ∨ nodes.length ≤ c := by
  obtain ⟨loc, hloc⟩ := hinv.located
  by_cases hij : i = j
  · subst hij
    have hold : Reach (store nodes) root i := hi.resolve_right (not_le.mpr (lt_of_main hmain))
    rw [store_of_main (main_set_branch hmain hgrows), map_eq_some_iff] at hl
    obtain ⟨br, hbr, rfl⟩ := hl
    by_cases hw : w = word
    · subst hw
      cases (AList.lookup_insert cn).symm.trans hbr
      refine ⟨hnew, fun c hc => ?_⟩
      rcases hchild c hc with hc | hc
      · exact .inr hc
      · obtain ⟨old, hbr', hc⟩ := bind_eq_some_iff.mp hc
        exact .inl (hold.link (store_eq_some.mpr ⟨cn, old, hmain, hbr', rfl⟩) hc)
    · have hbr' : cn.lookup w = some br := (AList.lookup_insert_ne hw).symm.trans hbr
      have hl := store_eq_some.mpr ⟨cn, br, hmain, hbr', rfl⟩
      exact ⟨htight.links hold hl, fun c hc => .inl (hold.link hl hc)⟩
  · rcases hi with hi | hi
    · rw [store_write hgrows i (hi.lt hloc hinv.root_lt) hij] at hl
      exact ⟨htight.links hi hl, fun c hc => .inl (hi.link hl hc)⟩
    · obtain ⟨cn', br, hmain', hbr, rfl⟩ := store_eq_some.mp hl
      have hlt := lt_of_main hmain'
      rw [length_set] at hlt
      obtain ⟨w', br', hcell, hbr', hchild'⟩ := hfresh i hi hlt
      rw [main_set_ne hij, hcell] at hmain'
      obtain rfl := MainNode.cNode.inj hmain'
      rw [lookup_singleton] at hbr
      split_ifs at hbr
      cases hbr
      exact ⟨hbr', fun c hc => .inr (hchild' c hc)⟩

theorem tight_set (hinv' : Inv (nodes'.set j (.cNode (cn.insert word new)))) :
    Tight (store (nodes'.set j (.cNode (cn.insert word new)))) root := by
  obtain ⟨loc, hloc⟩ := hinv.located
  obtain ⟨loc', hloc'⟩ := hinv'.located
  have hlink {i w l} := link_of_set (i := i) (w := w) (l := l) htight hinv hmain hgrows hfresh hnew
    hchild
  have hreach : ∀ {i}, Reach (store (nodes'.set j (.cNode (cn.insert word new)))) root i →
      Reach (store nodes) root i ∨ nodes.length ≤ i := by
    intro i hi
    induction hi with
    | root => exact .inl .root
    | link _ hl hc ih => exact (hlink ih hl).2 _ hc
  constructor
  · intro i w l hi hl
    exact (hlink (hreach hi) hl).1
  · intro i hi hne
    by_cases hij : i = j
    · subst hij
      refine ⟨word, new.link, ?_⟩
      rw [store_of_main (main_set_branch hmain hgrows)]
      simp [MainNode.branches]
    · rcases hreach hi with hold | hnew
      · rw [store_write hgrows i (hold.lt hloc hinv.root_lt) hij]
        exact htight.cells hold hne
      · have hlt := hi.lt hloc' hinv'.root_lt
        rw [length_set] at hlt
        obtain ⟨w, br, hcell, -⟩ := hfresh i hnew hlt
        refine ⟨w, br.link, ?_⟩
        rw [store_of_main ((main_set_ne hij).trans hcell)]
        simp [MainNode.branches, lookup_singleton]

end Set

variable {parent : Option Nat}

theorem Inserted.tight (htight : Tight (store nodes) root) (hinv : Inv nodes)
    (hwalk : walk (store nodes) root q = some j) (h : Inserted nodes sub j parent word rest done)
    (hdone : done.2 = true) :
    Tight (store done.1) root := by
  have hinv' : Inv done.1 := by
    rcases h.adds hinv hwalk with ⟨hfalse, -⟩ | ⟨-, hadds⟩
    · rw [hdone] at hfalse
      cases hfalse
    · exact hadds.inv
  cases h with
  | tombed => cases hdone
  | present => exact htight
  | last hmain =>
    exact tight_set htight hinv hmain prefix_rfl sprouted_self (.inl (cons_ne_nil _ _))
      (fun c hc => .inr hc) hinv'
  | below hmain hrest hnone =>
    obtain ⟨hfresh, hle⟩ := sprouted_newCNode nodes hrest sub
    refine tight_set htight hinv hmain (grown_newCNode nodes hrest sub).grows hfresh
      (.inr ⟨_, rfl⟩) ?_ hinv'
    intro c hc
    exact .inl (some.inj hc ▸ hle)

end Insert

section Remove

theorem exists_lookup (h : cn.entries ≠ []) : ∃ w br, cn.lookup w = some br := by
  obtain ⟨⟨w, br⟩, hmem⟩ := exists_mem_of_ne_nil cn.entries h
  exact ⟨w, br, AList.mem_lookup_iff.mpr hmem⟩

theorem branch_of_toCompressed (h : (toCompressed nodes cn).lookup word = some br) :
    br.subs ≠ [] ∨ ∃ c, br.iNode = some c := by
  rw [lookup_toCompressed, filter_eq_some_iff] at h
  by_contra hnot
  push Not at hnot
  have hnone : br.iNode = none := eq_none_iff_forall_ne_some.mpr hnot.2
  simp [prunable, hnot.1, hnone] at h

variable {parent g : Nat} {pcn gcn : CNode σ} {pbr gbr : Branch σ} {prev key : Segment}
variable {loc : Nat → List Segment}

theorem contract_of_live (h : pp = none ∧ parent = root ∨ (toCompressed nodes pcn).entries ≠ []) :
    contract nodes pp parent pcn = nodes.set parent (.cNode (toCompressed nodes pcn)) := by
  have hlive : toContracted (toCompressed nodes pcn) parent = .cNode (toCompressed nodes pcn) := by
    rw [toContracted, if_neg]
    rintro ⟨hne, hnil⟩
    rcases h with ⟨-, hroot⟩ | hlive
    · exact hne hroot
    · exact hlive hnil
  unfold contract
  cases pp with
  | none => simp only [hlive]
  | some g =>
    have hne : (toCompressed nodes pcn).entries ≠ [] := h.resolve_left fun h => by cases h.1
    simp only [if_neg hne, hlive]

theorem contract_of_empty (hnil : (toCompressed nodes pcn).entries = [])
    (hgmain : nodes.main g = .cNode gcn) (hkey : gcn.lookup key = some gbr)
    (hchild : gbr.iNode = some parent)
    (honly : ∀ w br, gcn.lookup w = some br → br.iNode = some parent → w = key) :
    ∃ cleared : CNode σ, (∀ w, cleared.lookup w =
        if w = key then (if gbr.subs = [] then none else some ⟨none, gbr.subs⟩)
        else gcn.lookup w) ∧
      contract nodes (some g) parent pcn = nodes.set g (.cNode (toCompressed nodes cleared)) := by
  have hmem : ⟨key, gbr⟩ ∈ gcn.entries := AList.mem_lookup_iff.mp hkey
  obtain ⟨e, hfind⟩ : ∃ e, gcn.entries.find? (fun e => e.2.iNode = some parent) = some e := by
    rw [← isSome_iff_exists, find?_isSome]
    exact ⟨⟨key, gbr⟩, hmem, by simpa using hchild⟩
  obtain ⟨w, br⟩ := e
  have hbr : gcn.lookup w = some br := AList.mem_lookup_iff.mpr (mem_of_find?_eq_some hfind)
  obtain rfl := honly w br hbr (by simpa using find?_some hfind)
  cases hkey.symm.trans hbr
  refine ⟨_, fun w => lookup_cleared, ?_⟩
  unfold contract
  simp only [if_pos hnil, hgmain, hfind]

/-- The node `j` is empty, and the node `g` is set to what is left of some branches then. -/
abbrev swept (nodes : Nodes σ) (j g : Nat) (left : CNode σ) : Nodes σ :=
  (nodes.set j .tNode).set g (.cNode (toCompressed (nodes.set j .tNode) left))

section Swept
variable {left : CNode σ} (hmain : nodes.main j = .cNode cn) (hne : g ≠ j)
variable (hg : nodes.main g = .cNode gcn)
variable (hlinks : ∀ w br c, left.lookup w = some br → br.iNode = some c →
  ∃ old, gcn.lookup w = some old ∧ old.iNode = some c)
include hg

theorem main_swept :
    (swept nodes j g left).main g = .cNode (toCompressed (nodes.set j .tNode) left) := by
  apply main_set_self
  rw [length_set]
  exact lt_of_main hg

include hmain hne hlinks

theorem child_of_swept {c : Nat} (hl : store (swept nodes j g left) i w = some l)
    (hc : l.child = some c) : ∃ old, store nodes i w = some old ∧ old.child = some c := by
  obtain ⟨old, hold, hchild⟩ := child_of_set (m := .cNode _) ((main_set_ne hne).trans hg)
    (fun w br c hbr => hlinks w br c (lookup_of_toCompressed hbr)) hl hc
  exact child_of_set hmain (fun _ _ _ h => by cases h) hold hchild

theorem tight_swept (htight : Tight (store nodes) root)
    (hgone : ¬ Reach (store (swept nodes j g left)) root j)
    (hlive : g ≠ root → ∃ w l, store (swept nodes j g left) g w = some l) :
    Tight (store (swept nodes j g left)) root := by
  refine htight.cut (child_of_swept hmain hne hg hlinks) ?_
  intro i hi
  by_cases hig : i = g
  · subst hig
    refine .inr ⟨?_, hlive⟩
    intro w l hl
    rw [store_of_main (main_swept hg), map_eq_some_iff] at hl
    obtain ⟨br, hbr, rfl⟩ := hl
    exact branch_of_toCompressed hbr
  · have hij : i ≠ j := by
      rintro rfl
      exact hgone hi
    exact .inl (store_congr ((main_set_ne hig).trans (main_set_ne hij)))

end Swept

section Contract

/-! The node `j` has become empty. Its parent has it under `prev`. -/

variable (htight : Tight (store nodes) root) (hloc : Located nodes.length loc (store nodes))
variable (hmain : nodes.main j = .cNode cn)
variable (hparent : Reach (store nodes) root parent) (hp : nodes.main parent = .cNode pcn)
variable (hbr : pcn.lookup prev = some pbr) (hj : pbr.iNode = some j)
include hloc hp hbr hj in
theorem parent_ne : parent ≠ j := by
  rintro rfl
  have hl := store_eq_some.mpr ⟨pcn, pbr, hp, hbr, rfl⟩
  have hlength := congrArg length (hloc.path hl hj)
  simp at hlength

include hloc hp hbr hj in
theorem grandparent_ne (hgmain : nodes.main g = .cNode gcn) (hkey : gcn.lookup key = some gbr)
    (hchild : gbr.iNode = some parent) : g ≠ j := by
  rintro rfl
  have hgl := store_eq_some.mpr ⟨gcn, gbr, hgmain, hkey, rfl⟩
  have hpl := store_eq_some.mpr ⟨pcn, pbr, hp, hbr, rfl⟩
  have hlength := congrArg length (hloc.path hpl hj)
  rw [hloc.path hgl hchild] at hlength
  simp at hlength

include hmain in
theorem tombed_emptied : Nodes.tombed (nodes.set j .tNode) j = true := by
  rw [tombed_iff]
  exact main_set_self (lt_of_main hmain)

include htight hloc hmain hparent hp hbr hj

theorem tight_prune (hsubs : pbr.subs = [])
    (hlive : parent ≠ root → (toCompressed (nodes.set j .tNode) pcn).entries ≠ []) :
    Tight (store (swept nodes j parent pcn)) root := by
  have hne := parent_ne hloc hp hbr hj
  have hlinks : ∀ w br c, pcn.lookup w = some br → br.iNode = some c →
      ∃ old, pcn.lookup w = some old ∧ old.iNode = some c := fun _ br _ hbr hc => ⟨br, hbr, hc⟩
  refine tight_swept hmain hne hp hlinks htight ?_ fun hroot => ?_
  · refine hloc.not_reach_of_cut (child_of_swept hmain hne hp hlinks) hparent
      (store_eq_some.mpr ⟨pcn, pbr, hp, hbr, rfl⟩) hj ?_
    intro _ l' hl'
    have hpruned : prunable (nodes.set j .tNode) pbr = true := by
      simp [prunable, hsubs, hj, tombed_emptied hmain]
    rw [store_of_main (main_swept hp)] at hl'
    simp [MainNode.branches, lookup_toCompressed, hbr, hpruned] at hl'
  · obtain ⟨w, br, hw⟩ := exists_lookup (hlive hroot)
    exact ⟨w, br.link, store_eq_some.mpr ⟨_, br, main_swept hp, hw, rfl⟩⟩

theorem tight_clear (hg : Reach (store nodes) root g) (hgmain : nodes.main g = .cNode gcn)
    (hkey : gcn.lookup key = some gbr) (hchild : gbr.iNode = some parent) {cleared : CNode σ}
    (hcleared : ∀ w, cleared.lookup w =
      if w = key then (if gbr.subs = [] then none else some ⟨none, gbr.subs⟩) else gcn.lookup w)
    (hlive : g ≠ root → ∃ w l, store (swept nodes j g cleared) g w = some l) :
    Tight (store (swept nodes j g cleared)) root := by
  have hne := grandparent_ne hloc hp hbr hj hgmain hkey hchild
  have hnocell : ∀ br, cleared.lookup key = some br → br.iNode = none := by
    intro br hbr
    rw [hcleared, if_pos rfl] at hbr
    split_ifs at hbr
    exact some.inj hbr ▸ rfl
  have hlinks : ∀ w br c, cleared.lookup w = some br → br.iNode = some c →
      ∃ old, gcn.lookup w = some old ∧ old.iNode = some c := by
    intro w br c hbr hc
    have hw : w ≠ key := by
      rintro rfl
      rw [hnocell br hbr] at hc
      cases hc
    rw [hcleared, if_neg hw] at hbr
    exact ⟨br, hbr, hc⟩
  have hsub {i w l c} := child_of_swept (i := i) (w := w) (l := l) (c := c) hmain hne hgmain hlinks
  have hparentGone : ¬ Reach (store (swept nodes j g cleared)) root parent := by
    refine hloc.not_reach_of_cut hsub hg (store_eq_some.mpr ⟨gcn, gbr, hgmain, hkey, rfl⟩) hchild ?_
    intro _ l' hl'
    rw [store_of_main (main_swept hgmain), map_eq_some_iff] at hl'
    obtain ⟨br, hbr, rfl⟩ := hl'
    have hnone : br.link.child = none := hnocell br (lookup_of_toCompressed hbr)
    simp [hnone]
  refine tight_swept hmain hne hgmain hlinks htight ?_ hlive
  exact hloc.not_reach_of_cut hsub hparent (store_eq_some.mpr ⟨pcn, pbr, hp, hbr, rfl⟩) hj
    fun h => absurd h hparentGone

end Contract

variable [DecidableEq σ]

theorem tight_removed (htight : Tight (store nodes) root) (hmain : nodes.main j = .cNode cn)
    (hbr : cn.lookup word = some br)
    (hlive : j = root ∨
      Nodes.tombed (nodes.set j (toContracted (cn.removed word sub) j)) j = false) :
    Tight (store (nodes.set j (toContracted (cn.removed word sub) j))) root := by
  have hself := main_set_self (m := toContracted (cn.removed word sub) j) (lt_of_main hmain)
  refine htight.cut (child_of_set hmain (children_of_removed hbr)) ?_
  intro i hi
  by_cases hij : i = j
  · subst hij
    refine .inr ⟨?_, ?_⟩
    · intro w l hl
      rw [store_of_main hself, lookup_toContracted, map_eq_some_iff] at hl
      obtain ⟨br', hbr', rfl⟩ := hl
      by_cases hw : w = word
      · subst hw
        rw [lookup_removed hbr] at hbr'
        split_ifs at hbr' with hboth
        obtain rfl := some.inj hbr'
        rw [not_and_or] at hboth
        exact hboth.imp id ne_none_iff_exists'.mp
      · rw [lookup_removed_ne hw] at hbr'
        exact htight.links (hi.of_cut (child_of_set hmain (children_of_removed hbr)))
          (store_eq_some.mpr ⟨cn, br', hmain, hbr', rfl⟩)
    · intro hroot
      have hentries : (cn.removed word sub).entries ≠ [] := by
        intro hnil
        have htombed := hlive.resolve_left hroot
        rw [← Bool.not_eq_true, tombed_iff, hself] at htombed
        exact htombed (by rw [toContracted, if_pos ⟨hroot, hnil⟩])
      obtain ⟨w, br', hw⟩ := exists_lookup hentries
      exact ⟨w, br'.link, by rw [store_of_main hself, lookup_toContracted, hw]; rfl⟩
  · exact .inl (store_congr (main_set_ne hij))

def Beyond (nodes : Nodes σ) (path : List Segment) : Prop :=
  ∃ x rest, subscribersAt nodes (path ++ x :: rest) ≠ []

/-- After a removal at `q ++ [word]` which emptied the node at `q`: nobody is subscribed to `q`, and
the node two above it is the root or still of use. -/
def Cleared (nodes : Nodes σ) (q : List Segment) : Prop :=
  subscribersAt nodes q = [] ∧ ∀ r key prev, q = r ++ [key, prev] → r = [] ∨ Beyond nodes r

omit [DecidableEq σ] in
theorem exists_link_of_beyond (hwalk : walk (store nodes) root q = some g) (h : Beyond nodes q) :
    ∃ w l, store nodes g w = some l := by
  obtain ⟨x, rest, hne⟩ := h
  rw [subscribersAt, items_append hwalk, items_cons] at hne
  cases hl : store nodes g x with
  | none =>
    rw [hl] at hne
    exact absurd rfl hne
  | some l => exact ⟨x, l, hl⟩

omit [DecidableEq σ] in
theorem tight_emptied (htight : Tight (store nodes) root) (hinv : Inv nodes)
    (hdescends : Descends nodes root none none q j (some (parent, prev)) pp)
    (hmain : nodes.main j = .cNode cn)
    (hcleared : Cleared (cleanParent (nodes.set j .tNode) j parent pp prev) q) :
    Tight (store (cleanParent (nodes.set j .tNode) j parent pp prev)) root := by
  obtain ⟨loc, hloc⟩ := hinv.located
  have hwalk := hdescends.walk
  have hwrite := store_write (j := j) (m := .tNode) (prefix_rfl (l := nodes))
  rcases eq_nil_or_concat q with rfl | ⟨q, prev', rfl⟩
  · cases hdescends
  rw [concat_eq_append] at hdescends hwalk hcleared
  obtain ⟨p, pcn, pbr, above, pp₁, hdown, hp, hbr, hj, habove, rfl⟩ := hdescends.last
  cases habove
  have hne := parent_ne hloc hp hbr hj
  have hcontract : cleanParent (nodes.set j .tNode) j parent (above.map Prod.fst) prev =
      contract (nodes.set j .tNode) (above.map Prod.fst) parent pcn := by
    simp [cleanParent, (main_set_ne hne).trans hp, hbr, hj, tombed_emptied hmain]
  have hsubs : pbr.subs = [] := by
    have hat := hcleared.1
    rw [(quiet_cleanParent ..).subscribersAt, subscribersAt,
      hloc.items_write hwrite hinv.root_lt hwalk (fun w rest heq => by simp at heq),
      items_append hdown.walk, items_cons, store_of_main hp] at hat
    simpa [MainNode.branches, hbr, Branch.link] using hat
  have hreach : Reach (store nodes) root parent := Reach.root.walk hdown.walk
  rw [hcontract] at hcleared ⊢
  rcases eq_nil_or_concat q with rfl | ⟨r, key, rfl⟩
  · cases hdown
    rw [map_none, contract_of_live (.inl ⟨rfl, rfl⟩)]
    exact tight_prune htight hloc hmain hreach hp hbr hj hsubs fun h => absurd rfl h
  · rw [concat_eq_append] at hdown hcleared hwalk
    obtain ⟨g, gcn, gbr, above', pp', hdown', hgmain, hkey, hchild, rfl, -⟩ := hdown.last
    by_cases hnil : (toCompressed (nodes.set j .tNode) pcn).entries = []
    · have hgne := grandparent_ne hloc hp hbr hj hgmain hkey hchild
      have hgreach : Reach (store nodes) root g := Reach.root.walk hdown'.walk
      have hgmain' : Nodes.main (nodes.set j .tNode) g = .cNode gcn :=
        (main_set_ne hgne).trans hgmain
      have honly : ∀ w br, gcn.lookup w = some br → br.iNode = some parent → w = key := by
        intro w br hw hc
        exact (hloc.parent_unique hgreach (store_eq_some.mpr ⟨gcn, br, hgmain, hw, rfl⟩) hc hgreach
          (store_eq_some.mpr ⟨gcn, gbr, hgmain, hkey, rfl⟩) hchild).2
      obtain ⟨cleared, hlookup, heq⟩ := contract_of_empty hnil hgmain' hkey hchild honly
      rw [map_some, heq] at hcleared ⊢
      refine tight_clear htight hloc hmain hreach hp hbr hj hgreach hgmain hkey hchild hlookup ?_
      intro hgroot
      rcases hcleared.2 r key prev (by simp) with rfl | hbeyond
      · cases hdown'
        exact absurd rfl hgroot
      · refine exists_link_of_beyond ?_ hbeyond
        -- the way down to the node two above has not changed
        have hloc' : Located (nodes.set j .tNode).length loc (store (nodes.set j .tNode)) := by
          rw [length_set]
          exact hloc.cut (child_of_set hmain (fun _ _ _ h => by cases h))
        have hroot' : root < (nodes.set j .tNode).length := by
          rw [length_set]
          exact hinv.root_lt
        have hwalk' := (hloc.walk_write hwrite hinv.root_lt hwalk (p := r)
          (by rw [append_assoc]; exact prefix_append ..)).trans hdown'.walk
        exact (hloc'.walk_write (store_write prefix_rfl) hroot' hwalk' prefix_rfl).trans
          hwalk'
    · rw [contract_of_live (.inr hnil)]
      exact tight_prune htight hloc hmain hreach hp hbr hj hsubs fun _ => hnil

theorem Removed.tight (htight : Tight (store nodes) root) (hinv : Inv nodes)
    (hdescends : Descends nodes root none none q j above pp)
    (h : Removed nodes sub j above pp word rest done) (hdone : done.2 = true)
    (hcleared : sub ∈ subscribersAt nodes (q ++ word :: rest) → rest = [] →
      q = [] ∨ Beyond done.1 q ∨ Cleared done.1 q) : Tight (store done.1) root := by
  cases h with
  | tombed => cases hdone
  | absent => exact htight
  | kept hmain hbr hmem hlive =>
    refine tight_removed htight hmain hbr (hlive.imp ?_ id)
    rintro rfl
    rcases eq_nil_or_concat q with rfl | ⟨q, prev, rfl⟩
    · cases hdescends
      rfl
    · rw [concat_eq_append] at hdescends
      obtain ⟨_, _, _, _, _, -, -, -, -, habove, -⟩ := hdescends.last
      cases habove
  | @emptied parent prev _ _ cn br hmain hbr hmem htombed =>
    have hhere : sub ∈ subscribersAt nodes (q ++ [word]) := by
      rw [subscribersAt_append _ _ hdescends.walk hmain, hbr]
      exact hmem
    replace hcleared := hcleared hhere rfl
    have hempty : toContracted (cn.removed word sub) j = .tNode := by
      rw [tombed_iff, main_set_self (lt_of_main hmain)] at htombed
      exact htombed
    rw [hempty] at hcleared ⊢
    obtain ⟨loc, hloc⟩ := hinv.located
    have hwalk := (hloc.walk_write (store_write (m := .tNode) prefix_rfl) hinv.root_lt
      hdescends.walk prefix_rfl).trans hdescends.walk
    refine tight_emptied htight hinv hdescends hmain ?_
    rcases hcleared with rfl | hbeyond | hcleared
    · cases hdescends
    · -- nothing is kept beyond a T-node
      obtain ⟨x, more, hne⟩ := hbeyond
      rw [(quiet_cleanParent ..).subscribersAt, subscribersAt, items_append hwalk,
        items_of_tombed (tombed_emptied hmain)] at hne
      exact absurd rfl hne
    · exact hcleared

end Remove

section Histories
variable (comparable : σ → Bool)

def Held (as : List (Action σ)) (path : List Segment) (s : σ) : Prop :=
  ∃ pattern, splitSegments pattern = path ∧ Subscribed comparable SameSegments as pattern s

def HeldBeyond (as : List (Action σ)) (path : List Segment) : Prop :=
  ∃ x rest s, Held comparable as (path ++ x :: rest) s

/-- The history ends with an `Unsubscribe` of these words. If nothing longer than `q`, the words
without the last one, is held any more, then nobody holds `q` either, and something longer than `q`
without its last two words is still held, unless nothing is left of `q` then. -/
def Unwinds (as : List (Action σ)) (words : List Segment) : Prop :=
  ∀ q w, words = q ++ [w] → q = [] ∨ HeldBeyond comparable as q ∨
    (∀ s, ¬ Held comparable as q s) ∧
      ∀ r key prev, q = r ++ [key, prev] → r = [] ∨ HeldBeyond comparable as r

def Unwound (as : List (Action σ)) : Prop :=
  ∀ k topic s n, as[k]? = some (.unsubscribe (some ⟨topic, s⟩) n) →
    Held comparable (as.take k) (splitSegments topic) s →
    Unwinds comparable (as.take (k + 1)) (splitSegments topic)

variable {comparable} {as : List (Action σ)} {a : Action σ} {path : List Segment}

theorem Unwound.init (h : Unwound comparable (as ++ [a])) : Unwound comparable as := by
  intro k topic s n hk hheld
  have hlt : k < as.length := (List.getElem?_eq_some_iff.mp hk).1
  have hunwinds := h k topic s n (by rw [getElem?_append_left hlt, hk])
  rw [take_append_of_le_length hlt.le, take_append_of_le_length hlt] at hunwinds
  exact hunwinds hheld

theorem Unwound.last {topic : String} {s : σ} {n : Nat}
    (h : Unwound comparable (as ++ [.unsubscribe (some ⟨topic, s⟩) n]))
    (hheld : Held comparable as (splitSegments topic) s) :
    Unwinds comparable (as ++ [.unsubscribe (some ⟨topic, s⟩) n]) (splitSegments topic) := by
  have hunwinds := h as.length topic s n (by simp)
  rw [take_left, take_of_length_le (by simp)] at hunwinds
  exact hunwinds hheld

theorem Represents.held (h : Represents comparable as nodes) {s : σ} :
    Held comparable as path s ↔ s ∈ subscribersAt nodes path :=
  (h.mem path s).symm

theorem Represents.heldBeyond (h : Represents comparable as nodes) :
    HeldBeyond comparable as path ↔ Beyond nodes path := by
  unfold HeldBeyond Beyond
  simp only [h.held]
  refine exists_congr fun x => exists_congr fun rest => ⟨?_, exists_mem_of_ne_nil _⟩
  rintro ⟨s, hs⟩
  exact ne_nil_of_mem hs

theorem Represents.cleared (h : Represents comparable as nodes)
    (hunwinds : Unwinds comparable as (path ++ [w])) :
    path = [] ∨ Beyond nodes path ∨ Cleared nodes path := by
  rcases hunwinds path w rfl with hnil | hbeyond | ⟨hnot, hup⟩
  · exact .inl hnil
  · exact .inr (.inl (h.heldBeyond.mp hbeyond))
  · refine .inr (.inr ⟨?_, fun r key prev hsplit => ?_⟩)
    · exact eq_nil_iff_forall_not_mem.mpr fun s hs => hnot s (h.held.mpr hs)
    · exact (hup r key prev hsplit).imp id h.heldBeyond.mp

theorem retry_of_done {attempt : Nodes σ → Nodes σ × Bool} {n : Nat}
    (hdone : (attempt nodes).2 = true) (h : retry attempt n nodes = some nodes') :
    nodes' = (attempt nodes).1 := by
  cases n with
  | zero => cases h
  | succ n =>
    unfold retry at h
    rw [show attempt nodes = ((attempt nodes).1, true) from Prod.ext rfl hdone] at h
    exact (some.inj h).symm

variable [DecidableEq σ]

section
variable (htight : Tight (store nodes) root) (hinv : Inv nodes) (hroot : Rooted nodes)
include htight hinv hroot

theorem iinsert_done
    (hwords : words ≠ []) (sub : σ) : (iinsert nodes sub root none words).2 = true := by
  rcases hattempt : iinsert nodes sub root none words with ⟨done, _ | _⟩
  · obtain ⟨k, br, hmeets, -⟩ := insert_fails hroot.live hwords hattempt
    exact absurd hmeets (not_meets_of_tight htight hinv)
  · rfl

theorem iremove_done
    (hwords : words ≠ []) (sub : σ) : (iremove nodes sub root none none words).2 = true := by
  rcases hattempt : iremove nodes sub root none none words with ⟨done, _ | _⟩
  · obtain ⟨k, br, hmeets, -⟩ := remove_fails hroot.live hwords hattempt
    exact absurd hmeets (not_meets_of_tight htight hinv)
  · rfl

theorem lookup_unchanged {topic : String} {n : Nat} {subs : List σ}
    (h : lookup n nodes topic = some (nodes', subs)) : nodes' = nodes := by
  unfold lookup at h
  dsimp only at h
  split_ifs at h
  · exact (Prod.mk.inj (some.inj h)).1.symm
  · cases n with
    | zero => cases h
    | succ n =>
      unfold lookupAttempts at h
      cases hattempt : ilookup nodes root none (splitSegments topic) with
      | ok found =>
        rw [hattempt] at h
        exact (Prod.mk.inj (some.inj h)).1.symm
      | error cleaned =>
        obtain ⟨k, br, hmeets, -⟩ := lookup_fails hroot.live hattempt
        exact absurd hmeets (not_meets_of_tight htight hinv)

end

theorem tight_step (hrep : Represents comparable as nodes) (hroot : Rooted nodes)
    (htight : Tight (store nodes) root) (hunwound : Unwound comparable (as ++ [a]))
    (hstep : step comparable nodes a = some nodes') : Tight (store nodes') root := by
  have hrep' := hrep.step hstep
  cases a with
  | subscribe topic sub n =>
    simp only [Trie.step, Trie.subscribe] at hstep
    split_ifs at hstep
    · exact Option.some.inj hstep ▸ htight
    · exact Option.some.inj hstep ▸ htight
    · simp only [Option.map_map, Option.map_eq_some_iff] at hstep
      obtain ⟨done, hretry, rfl⟩ := hstep
      have hwords := splitSegments_ne_nil topic
      have hdone := iinsert_done htight hrep.inv hroot hwords sub
      obtain ⟨q, word, rest, j, above, pp, -, hdescends, hinserted⟩ :=
        exists_inserted nodes sub hwords
      obtain rfl := retry_of_done hdone hretry
      exact hinserted.tight htight hrep.inv hdescends.walk hdone
  | unsubscribe sub n =>
    cases sub with
    | none => exact Option.some.inj hstep ▸ htight
    | some sub =>
      have hwords := splitSegments_ne_nil sub.topic
      have hdone := iremove_done htight hrep.inv hroot hwords sub.subscriber
      obtain ⟨q, word, rest, j, above, pp, hsplit, hdescends, hremoved⟩ :=
        exists_removed nodes sub.subscriber hwords
      obtain rfl := retry_of_done hdone hstep
      refine hremoved.tight htight hrep.inv hdescends hdone ?_
      rintro hheld rfl
      have hunwinds := hunwound.last (hrep.held.mpr (hsplit ▸ hheld))
      rw [hsplit] at hunwinds
      exact hrep'.cleared hunwinds
  | lookup topic n =>
    simp only [Trie.step, Option.map_eq_some_iff] at hstep
    obtain ⟨⟨after, subs⟩, hlookup, rfl⟩ := hstep
    exact lookup_unchanged htight hrep.inv hroot hlookup ▸ htight

omit [DecidableEq σ] in
theorem tight_start : Tight (store (newCSTrieMatcher : Nodes σ)) root := by
  constructor
  · intro i w l _ hl
    rw [store_newCSTrieMatcher] at hl
    cases hl
  · intro i hi hne
    cases hi with
    | root => exact absurd rfl hne
    | link _ hl =>
      rw [store_newCSTrieMatcher] at hl
      cases hl

theorem tight_run (hrun : run comparable newCSTrieMatcher as = some nodes)
    (hunwound : Unwound comparable as) : Tight (store nodes) root := by
  refine Transition.run_induction (P := fun as nodes => Unwound comparable as →
    Tight (store nodes) root) (fun _ => tight_start) ?_ as nodes hrun hunwound
  intro as nodes a nodes' hrun ih hstep hunwound
  exact tight_step (represents_run hrun) (rooted_run hrun) (ih hunwound.init) hunwound hstep

end Histories

/-- If a history unwinds its patterns and holds none in the end, then the root has no branches. -/
theorem matcher_reclaims [DecidableEq σ] {comparable : σ → Bool} {as : List (Action σ)}
    {nodes : Nodes σ} (hrun : run comparable newCSTrieMatcher as = some nodes)
    (hunwound : Unwound comparable as)
    (hgone : ∀ pattern s, ¬ Subscribed comparable SameSegments as pattern s) :
    nodes.main root = .cNode ∅ := by
  have hrep := represents_run hrun
  obtain ⟨loc, hloc⟩ := hrep.inv.located
  have hempty : ∀ path, subscribersAt nodes path = [] := by
    intro path
    refine eq_nil_iff_forall_not_mem.mpr fun s hs => ?_
    obtain ⟨pattern, -, hsubscribed⟩ := hrep.held.mpr hs
    exact hgone pattern s hsubscribed
  have hlinks := (tight_run hrun hunwound).link_eq_none hloc hempty
  cases hmain : nodes.main root with
  | tNode =>
    have hlive := (rooted_run hrun).live
    rw [tombed_iff.mpr hmain] at hlive
    cases hlive
  | cNode cn =>
    by_contra hne
    have hentries : cn.entries ≠ [] := fun hnil => hne (congrArg MainNode.cNode (AList.ext hnil))
    obtain ⟨w, br, hw⟩ := exists_lookup hentries
    have hlink := hlinks w
    rw [store_eq_some.mpr ⟨cn, br, hmain, hw, rfl⟩] at hlink
    cases hlink

section Inputs

def shallow : List (Action Nat) :=
  [.subscribe "a.b.c" 7 1, .subscribe "a.d" 8 1, .unsubscribe (some ⟨"a.b.c", 7⟩) 1,
    .unsubscribe (some ⟨"a.d", 8⟩) 1]

def deep : List (Action Nat) :=
  [.subscribe "a.b.c.d" 7 1, .unsubscribe (some ⟨"a.b.c.d", 7⟩) 1]

def leftAbove : List (Action Nat) :=
  [.subscribe "a" 7 1, .subscribe "a.b" 7 1, .unsubscribe (some ⟨"a.b", 7⟩) 1,
    .unsubscribe (some ⟨"a", 7⟩) 1]

theorem matcher_reclaims_shallow :
    ∃ nodes, run always newCSTrieMatcher shallow = some nodes ∧ Unwound always shallow ∧
      (∀ pattern s, ¬ Subscribed always SameSegments shallow pattern s) ∧
      nodes.main root = .cNode ∅ := by
  have hunwound : Unwound always shallow := by
    have hinit : ∀ {words q : List Segment} {w}, words = q ++ [w] → q = words.dropLast := by
      rintro _ q w rfl
      exact dropLast_concat.symm
    have hrep := represents_run (rfl : run always newCSTrieMatcher (shallow.take 3) = some _)
    have hrep' := represents_run (rfl : run always newCSTrieMatcher (shallow.take 4) = some _)
    intro k topic s n hk hheld
    rcases k with _ | _ | _ | _ | k
    · cases hk
    · cases hk
    · cases hk
      intro q w hsplit
      obtain rfl : q = [['a'], ['b']] := hinit hsplit
      refine .inr (.inr ⟨fun s hs => not_mem_nil (hrep.held.mp hs), fun r key prev heq => ?_⟩)
      exact .inl (length_eq_zero_iff.mp (by simpa using congrArg length heq))
    · cases hk
      intro q w hsplit
      obtain rfl : q = [['a']] := hinit hsplit
      refine .inr (.inr ⟨fun s hs => not_mem_nil (hrep'.held.mp hs), fun r key prev heq => ?_⟩)
      simpa using congrArg length heq
    · cases hk
  have hgone : ∀ pattern s, ¬ Subscribed always SameSegments shallow pattern s := by
    rintro pattern s ⟨before, after, n, hsplit, -, -, hkept⟩
    rcases before with _ | ⟨_, _ | ⟨_, _ | ⟨_, _ | ⟨_, before⟩⟩⟩⟩
    · cases hsplit
      exact hkept "a.b.c" 1 (by simp) rfl
    · cases hsplit
      exact hkept "a.d" 1 (by simp) rfl
    · cases hsplit
    · cases hsplit
    · simp [shallow] at hsplit
  exact ⟨_, rfl, hunwound, hgone, matcher_reclaims rfl hunwound hgone⟩

/-- The root keeps the branch of `a`, with an empty C-node or with a T-node below it. -/
theorem matcher_reclaims_not :
    (∃ nodes, run always newCSTrieMatcher deep = some nodes ∧
      (∀ pattern s, ¬ Subscribed always Eq deep pattern s) ∧ nodes.main root ≠ .cNode ∅) ∧
    ∃ nodes, run always newCSTrieMatcher leftAbove = some nodes ∧
      (∀ pattern s, ¬ Subscribed always Eq leftAbove pattern s) ∧ nodes.main root ≠ .cNode ∅ := by
  constructor
  · refine ⟨_, rfl, ?_, ?_⟩
    · rintro pattern s ⟨before, after, n, hsplit, -, -, hkept⟩
      rcases before with _ | ⟨_, _ | ⟨_, before⟩⟩
      · cases hsplit
        exact hkept "a.b.c.d" 1 (by simp) rfl
      · cases hsplit
      · simp [deep] at hsplit
    · intro hempty
      exact absurd (congrArg (fun m => m.branches.entries.length) hempty) (by decide)
  · refine ⟨_, rfl, ?_, ?_⟩
    · rintro pattern s ⟨before, after, n, hsplit, -, -, hkept⟩
      rcases before with _ | ⟨_, _ | ⟨_, _ | ⟨_, _ | ⟨_, before⟩⟩⟩⟩
      · cases hsplit
        exact hkept "a" 1 (by simp) rfl
      · cases hsplit
        exact hkept "a.b" 1 (by simp) rfl
      · cases hsplit
      · cases hsplit
      · simp [leftAbove] at hsplit
    · intro hempty
      exact absurd (congrArg (fun m => m.branches.entries.length) hempty) (by decide)

end Inputs

end MessageLoop.Trie
