import MessageLoop.Topics.Trie

/-!
What one attempt of a call does to the subscriptions that the trie holds, and what an attempt to
look up finds.
-/

namespace MessageLoop.Trie

open Topics LinkedTrie List Option Function AList Branch MainNode Nodes

variable {σ : Type} {nodes nodes' : Nodes σ} {i j : Nat} {m : MainNode σ} {cn : CNode σ}
variable {br : Branch σ} {word : Segment} {words rest q : List Segment} {sub : σ}
variable {loc : Nat → List Segment}

section Store

def Branch.link (br : Branch σ) : Link σ :=
  ⟨br.iNode, br.subs⟩

def MainNode.branches : MainNode σ → CNode σ
  | .cNode cn => cn
  | .tNode => ∅

def store (nodes : Nodes σ) : Store Segment σ :=
  fun i word => ((nodes.main i).branches.lookup word).map link

abbrev subscribersAt (nodes : Nodes σ) (path : List Segment) : List σ :=
  items (store nodes) root path

structure Inv (nodes : Nodes σ) : Prop where
  root_lt : root < nodes.length
  located : ∃ loc, Located nodes.length loc (store nodes)

theorem lt_of_main (h : nodes.main i = .cNode cn) : i < nodes.length := by
  by_contra hge
  rw [main, getD_eq_getElem?_getD, getElem?_eq_none (by omega)] at h
  cases h

theorem main_set_self (hj : j < nodes.length) : main (nodes.set j m) j = m := by
  simp [main, getD_eq_getElem?_getD, hj]

theorem main_set_ne (hne : i ≠ j) : main (nodes.set j m) i = nodes.main i := by
  simp [main, getD_eq_getElem?_getD, getElem?_set_ne hne.symm]

theorem main_append {more : Nodes σ} (hi : i < nodes.length) :
    main (nodes ++ more) i = nodes.main i := by
  simp [main, getD_eq_getElem?_getD, getElem?_append_left hi]

theorem main_append_length : main (nodes ++ [m]) nodes.length = m := by
  simp [main, getD_eq_getElem?_getD]

theorem store_of_main (h : nodes.main i = m) :
    store nodes i word = (m.branches.lookup word).map link := by
  rw [store, h]

theorem store_congr (h : nodes'.main i = nodes.main i) : store nodes' i = store nodes i := by
  unfold store
  rw [h]

end Store

section Quiet

structure Quiet (nodes nodes' : Nodes σ) : Prop where
  length : nodes'.length = nodes.length
  located : ∀ {n loc}, Located n loc (store nodes) → Located n loc (store nodes')
  items : ∀ i path, items (store nodes') i path = items (store nodes) i path

variable {nodes'' : Nodes σ}

theorem Quiet.refl (nodes : Nodes σ) : Quiet nodes nodes :=
  ⟨rfl, id, fun _ _ => rfl⟩

theorem Quiet.trans (h : Quiet nodes nodes') (h' : Quiet nodes' nodes'') : Quiet nodes nodes'' :=
  ⟨h'.length.trans h.length, fun hloc => h'.located (h.located hloc),
    fun i path => (h'.items i path).trans (h.items i path)⟩

theorem Quiet.inv (h : Quiet nodes nodes') (hinv : Inv nodes) : Inv nodes' := by
  obtain ⟨loc, hloc⟩ := hinv.located
  refine ⟨h.length ▸ hinv.root_lt, loc, ?_⟩
  rw [h.length]
  exact h.located hloc

theorem child_of_set {l : Link σ} {k : Nat} (hmain : nodes.main j = .cNode cn)
    (hlinks : ∀ word br k, m.branches.lookup word = some br → br.iNode = some k →
      ∃ old, cn.lookup word = some old ∧ old.iNode = some k)
    (hl : store (nodes.set j m) i word = some l) (hk : l.child = some k) :
    ∃ old, store nodes i word = some old ∧ old.child = some k := by
  by_cases hij : i = j
  · subst hij
    rw [store_of_main (main_set_self (lt_of_main hmain)), map_eq_some_iff] at hl
    obtain ⟨br, hbr, rfl⟩ := hl
    obtain ⟨old, hold, hchild⟩ := hlinks word br k hbr hk
    exact ⟨old.link, by rw [store_of_main hmain]; simp [branches, hold], hchild⟩
  · rw [store_congr (main_set_ne hij)] at hl
    exact ⟨l, hl, hk⟩

theorem quiet_set (hmain : nodes.main j = .cNode cn)
    (hvia : ∀ word rest, via (store nodes) ((m.branches.lookup word).map link) rest =
      via (store nodes) ((cn.lookup word).map link) rest)
    (hlinks : ∀ word br k, m.branches.lookup word = some br → br.iNode = some k →
      ∃ old, cn.lookup word = some old ∧ old.iNode = some k) :
    Quiet nodes (nodes.set j m) := by
  have hj := lt_of_main hmain
  refine ⟨length_set, fun hloc => hloc.cut (child_of_set hmain hlinks), ?_⟩
  · intro i path
    refine items_congr ?_
    intro i word rest
    by_cases hij : i = j
    · subst hij
      rw [store_of_main (main_set_self hj), store_of_main hmain]
      exact hvia word rest
    · rw [store_congr (main_set_ne hij)]

theorem items_of_tombed (h : nodes.tombed i = true) (path : List Segment) :
    items (store nodes) i path = [] := by
  cases path with
  | nil => rfl
  | cons word rest =>
    have hmain : nodes.main i = .tNode := by
      unfold tombed at h
      split at h
      · cases h
      · assumption
    rw [items_cons, store_of_main hmain]
    simp [branches]

theorem via_of_prunable (h : prunable nodes br = true) (rest : List Segment) :
    via (store nodes) (some br.link) rest = [] := by
  simp only [prunable, Bool.and_eq_true, List.isEmpty_iff] at h
  cases rest with
  | nil => exact h.1
  | cons word rest =>
    rw [via_cons]
    unfold link
    cases hchild : br.iNode with
    | none => rfl
    | some k => exact items_of_tombed (by simpa [hchild] using h.2) _

theorem lookup_toCompressed (word : Segment) :
    (toCompressed nodes cn).lookup word = (cn.lookup word).filter (!prunable nodes ·) := by
  ext br
  rw [filter_eq_some_iff, ← mem_def, ← mem_def, AList.mem_lookup_iff,
    AList.mem_lookup_iff]
  exact mem_filter

theorem via_toCompressed (word : Segment) (rest : List Segment) :
    via (store nodes) (((toCompressed nodes cn).lookup word).map link) rest =
      via (store nodes) ((cn.lookup word).map link) rest := by
  rw [lookup_toCompressed]
  cases cn.lookup word with
  | none => rfl
  | some br =>
    cases hprune : prunable nodes br with
    | true => simpa [Option.filter, hprune] using (via_of_prunable hprune rest).symm
    | false => simp [Option.filter, hprune]

theorem lookup_of_toCompressed (h : (toCompressed nodes cn).lookup word = some br) :
    cn.lookup word = some br := by
  rw [lookup_toCompressed, filter_eq_some_iff] at h
  exact h.1

theorem lookup_toContracted (word : Segment) :
    (toContracted cn i).branches.lookup word = cn.lookup word := by
  unfold toContracted
  split_ifs with h
  · have hempty : cn = ∅ := ext h.2
    rw [hempty]
    rfl
  · rfl

theorem quiet_clean (nodes : Nodes σ) (i : Option Nat) : Quiet nodes (clean nodes i) := by
  cases i with
  | none => exact .refl nodes
  | some i =>
    unfold clean
    dsimp only
    split
    · rename_i cn hmain
      refine quiet_set hmain (fun word rest => via_toCompressed word rest) ?_
      intro word br k hbr hk
      exact ⟨br, lookup_of_toCompressed hbr, hk⟩
    · exact .refl nodes

theorem quiet_compress (hmain : nodes.main j = .cNode cn) :
    Quiet nodes (nodes.set j (toContracted (toCompressed nodes cn) j)) := by
  refine quiet_set hmain ?_ ?_
  · intro word rest
    rw [lookup_toContracted, via_toCompressed]
  · intro word br k hbr hk
    rw [lookup_toContracted] at hbr
    exact ⟨br, lookup_of_toCompressed hbr, hk⟩

theorem items_of_compressed_nil (hmain : nodes.main j = .cNode cn)
    (hnil : (toCompressed nodes cn).entries = []) (path : List Segment) :
    items (store nodes) j path = [] := by
  cases path with
  | nil => rfl
  | cons word rest =>
    have hempty : toCompressed nodes cn = ∅ := ext hnil
    rw [items_cons, store_of_main hmain]
    change via (store nodes) ((cn.lookup word).map link) rest = []
    rw [← via_toCompressed, hempty]
    rfl

theorem lookup_cleared {key : Segment} :
    (if br.subs = [] then (cn.updatedBranch key none br).erase key
      else cn.updatedBranch key none br).lookup word =
      if word = key then (if br.subs = [] then none else some ⟨none, br.subs⟩)
      else cn.lookup word := by
  by_cases hword : word = key
  · subst hword
    rw [if_pos rfl]
    split_ifs with hsubs
    · exact lookup_erase word _
    · exact lookup_insert cn
  · rw [if_neg hword]
    split_ifs with hsubs
    · rw [lookup_erase_ne hword]
      exact lookup_insert_ne hword
    · exact lookup_insert_ne hword

theorem quiet_contract (hmain : nodes.main i = .cNode cn) (parentsParent : Option Nat) :
    Quiet nodes (contract nodes parentsParent i cn) := by
  unfold contract
  dsimp only
  cases parentsParent with
  | none => exact quiet_compress hmain
  | some pp =>
    dsimp only
    split_ifs with hnil
    · split
      · exact .refl nodes
      · rename_i ppcn hpp
        cases hfind : ppcn.entries.find? (fun e => e.2.iNode = some i) with
        | none => exact .refl nodes
        | some e =>
          obtain ⟨key, br⟩ := e
          have hchild : br.iNode = some i := by simpa using find?_some hfind
          have hkey : ppcn.lookup key = some br :=
            AList.mem_lookup_iff.mpr (mem_of_find?_eq_some hfind)
          dsimp only
          refine quiet_set hpp ?_ ?_
          · intro word rest
            change via (store nodes) (((toCompressed nodes _).lookup word).map link) rest = _
            rw [via_toCompressed, lookup_cleared]
            by_cases hword : word = key
            · subst hword
              rw [if_pos rfl, hkey]
              -- beyond the cleared branch there was nothing
              have hbelow := items_of_compressed_nil hmain hnil
              cases rest with
              | nil => split_ifs with hsubs <;> simp [link, hsubs]
              | cons next rest =>
                split_ifs with hsubs <;> simp [link, via_cons, hchild, hbelow]
            · rw [if_neg hword]
          · intro word br' k hbr' hk
            have hcleared := lookup_of_toCompressed (show (toCompressed nodes _).lookup word = _
              from hbr')
            rw [lookup_cleared] at hcleared
            by_cases hword : word = key
            · rw [if_pos hword] at hcleared
              split_ifs at hcleared with hsubs
              cases hcleared
              cases hk
            · rw [if_neg hword] at hcleared
              exact ⟨br', hcleared, hk⟩
    · exact quiet_compress hmain

theorem quiet_cleanParent (nodes : Nodes σ) (i parent : Nat) (parentsParent : Option Nat)
    (word : Segment) : Quiet nodes (cleanParent nodes i parent parentsParent word) := by
  unfold cleanParent
  split
  · exact .refl nodes
  · rename_i cn hmain
    split
    · exact .refl nodes
    · split_ifs
      · exact .refl nodes
      · exact quiet_contract hmain parentsParent
      · exact .refl nodes

end Quiet

section Grow

structure Grown (nodes nodes' : Nodes σ) (child : Nat) (words : List Segment) (sub : σ) :
    Prop where
  grows : nodes <+: nodes'
  lt : child < nodes'.length
  items : ∀ {t : Store Segment σ}, (∀ k, nodes.length ≤ k → k < nodes'.length →
    t k = store nodes' k) → ∀ path, items t child path = if path = words then [sub] else []
  located : ∀ {loc} base, Located nodes.length loc (store nodes) →
    ∃ loc', (∀ k < nodes.length, loc' k = loc k) ∧ loc' child = base ∧
      Located nodes'.length loc' (store nodes')

theorem lookup_singleton (w : Segment) :
    (singleton word br : CNode σ).lookup w = if w = word then some br else none := by
  split_ifs with hw
  · subst hw
    exact AList.mem_lookup_iff.mpr (by simp)
  · rw [AList.lookup_eq_none, AList.mem_keys]
    simpa [AList.keys] using hw

theorem located_snoc {base : List Segment} (h : Located nodes.length loc (store nodes))
    (hbr : ∀ k, br.iNode = some k → k < nodes.length ∧ loc k = base ++ [word]) :
    Located (nodes ++ [cNode (singleton word br)]).length
      (Function.update loc nodes.length base)
      (store (nodes ++ [cNode (singleton word br)])) := by
  have hlink : ∀ {i w l k}, store (nodes ++ [cNode (singleton word br)]) i w = some l →
      l.child = some k → k < nodes.length ∧
        loc k = update loc nodes.length base i ++ [w] := by
    intro i w l k hl hk
    rcases lt_trichotomy i nodes.length with hi | rfl | hi
    · rw [store_congr (main_append hi)] at hl
      rw [update_of_ne hi.ne]
      exact ⟨h.bound hl hk, h.path hl hk⟩
    · rw [store_of_main main_append_length] at hl
      simp only [branches, lookup_singleton] at hl
      split_ifs at hl with hw
      · cases hl
        rw [update_self, hw]
        exact hbr k hk
      · cases hl
    · obtain ⟨old, hold, -⟩ := map_eq_some_iff.mp hl
      rw [main, getD_eq_getElem?_getD, getElem?_eq_none (by simp; omega)] at hold
      cases hold
  constructor
  · intro i w l k hl hk
    rw [length_append]
    exact Nat.lt_add_right _ (hlink hl hk).1
  · intro i w l k hl hk
    obtain ⟨hlt, hpath⟩ := hlink hl hk
    rw [update_of_ne hlt.ne, hpath]

theorem newCNode_cons (next : Segment) : newCNode nodes (word :: next :: words) sub =
    ((newCNode nodes (next :: words) sub).1 ++ [.cNode (newCNode nodes (next :: words) sub).2],
      singleton word ⟨some (newCNode nodes (next :: words) sub).1.length, []⟩) :=
  rfl

/-- The cells for the remaining words, and one more that leads to them. -/
theorem grown_snoc {below : Nodes σ} (hgrows : nodes <+: below)
    (hvia : ∀ {t : Store Segment σ}, (∀ k, nodes.length ≤ k → k < below.length →
      t k = store below k) → ∀ rest, via t (some br.link) rest = if rest = words then [sub] else [])
    (hlocated : ∀ {loc} base, Located nodes.length loc (store nodes) →
      ∃ loc', (∀ k < nodes.length, loc' k = loc k) ∧ Located below.length loc' (store below) ∧
        ∀ k, br.iNode = some k → k < below.length ∧ loc' k = base) :
    Grown nodes (below ++ [.cNode (singleton word br)]) below.length (word :: words) sub := by
  have hle := hgrows.length_le
  refine ⟨hgrows.trans (prefix_append _ _), by simp, ?_, ?_⟩
  · intro t ht path
    cases path with
    | nil => simp [LinkedTrie.items]
    | cons w rest =>
      rw [items_cons, ht _ hle (by simp), store_of_main main_append_length]
      simp only [branches, lookup_singleton]
      by_cases hw : w = word
      · have hrest := hvia (t := t) (fun k hk hk' => by
          rw [ht k hk (by simp; omega), store_congr (main_append hk')]) rest
        simpa [hw] using hrest
      · simp [hw]
  · intro loc base hloc
    obtain ⟨loc', hsame, hloc', hchild⟩ := hlocated (base ++ [word]) hloc
    refine ⟨update loc' below.length base, ?_, update_self .., located_snoc hloc' hchild⟩
    intro k hk
    rw [update_of_ne (by omega), hsame k hk]

theorem grown_newCNode (nodes : Nodes σ) (hwords : words ≠ []) (sub : σ) :
    Grown nodes ((newCNode nodes words sub).1 ++ [.cNode (newCNode nodes words sub).2])
      (newCNode nodes words sub).1.length words sub := by
  induction words with
  | nil => exact absurd rfl hwords
  | cons word words ih =>
    cases words with
    | nil =>
      refine grown_snoc prefix_rfl ?_ fun _ hloc => ⟨_, fun _ _ => rfl, hloc, nofun⟩
      intro t _ rest
      cases rest <;> simp [link, via_cons]
    | cons next words =>
      obtain ⟨hgrows, hlt, hitems, hlocated⟩ := ih (cons_ne_nil _ _)
      rw [newCNode_cons]
      refine grown_snoc hgrows ?_ ?_
      · intro t ht rest
        cases rest <;> simp [link, via_cons, hitems ht]
      · intro loc base hloc
        obtain ⟨loc', hsame, hchild, hloc'⟩ := hlocated base hloc
        refine ⟨loc', hsame, hloc', ?_⟩
        rintro k ⟨⟩
        exact ⟨hlt, hchild⟩

end Grow

section Write

theorem store_eq_some {l : Link σ} : store nodes i word = some l ↔
    ∃ cn br, nodes.main i = .cNode cn ∧ cn.lookup word = some br ∧ br.link = l := by
  unfold store
  cases nodes.main i with
  | tNode => simp [branches]
  | cNode cn => simp [branches, map_eq_some_iff]

theorem subscribersAt_append (word : Segment) (rest : List Segment)
    (hwalk : walk (store nodes) root q = some j) (hmain : nodes.main j = .cNode cn) :
    subscribersAt nodes (q ++ word :: rest) =
      via (store nodes) ((cn.lookup word).map link) rest := by
  rw [subscribersAt, items_append hwalk, items_cons, store_of_main hmain]
  rfl

theorem store_write (hgrows : nodes <+: nodes') (k : Nat) (hk : k < nodes.length) (hne : k ≠ j) :
    store (nodes'.set j m) k = store nodes k := by
  obtain ⟨more, rfl⟩ := hgrows
  rw [store_congr (main_set_ne hne), store_congr (main_append hk)]

theorem subscribersAt_write (hloc : Located nodes.length loc (store nodes))
    (hroot : root < nodes.length) (hwalk : walk (store nodes) root q = some j)
    (hmain : nodes.main j = .cNode cn) (hgrows : nodes <+: nodes')
    (hm : ∀ w, w ≠ word → m.branches.lookup w = cn.lookup w) :
    (∀ path, (∀ rest, path ≠ q ++ word :: rest) →
      subscribersAt (nodes'.set j m) path = subscribersAt nodes path) ∧
    ∀ rest, subscribersAt (nodes'.set j m) (q ++ word :: rest) =
      via (store (nodes'.set j m)) ((m.branches.lookup word).map link) rest := by
  have hj : j < nodes'.length := (lt_of_main hmain).trans_le hgrows.length_le
  have hself := main_set_self (m := m) hj
  constructor
  · intro path hpath
    refine hloc.items_write (store_write hgrows) hroot hwalk ?_
    intro w rest heq
    have hw : w ≠ word := by
      rintro rfl
      exact hpath rest heq
    rw [store_of_main hself, store_of_main hmain, hm w hw]
    rfl
  · intro rest
    rw [subscribersAt, hloc.items_through (store_write hgrows) hroot hwalk, store_of_main hself]

theorem located_write (word : Segment) (hloc : Located nodes.length loc (store nodes))
    (hmain : nodes.main j = .cNode cn) (hm : ∀ w, w ≠ word → m.branches.lookup w = cn.lookup w)
    (hlink : ∀ br k, m.branches.lookup word = some br → br.iNode = some k →
      k < nodes.length ∧ loc k = loc j ++ [word]) :
    Located (nodes.set j m).length loc (store (nodes.set j m)) := by
  have hself := main_set_self (m := m) (lt_of_main hmain)
  rw [length_set]
  have hedge : ∀ {i w l k}, store (nodes.set j m) i w = some l → l.child = some k →
      k < nodes.length ∧ loc k = loc i ++ [w] := by
    intro i w l k hl hk
    by_cases hij : i = j
    · subst hij
      by_cases hw : w = word
      · subst hw
        rw [store_of_main hself, map_eq_some_iff] at hl
        obtain ⟨br, hbr, rfl⟩ := hl
        exact hlink br k hbr hk
      · have hold : store nodes i w = some l := by
          rw [store_of_main hself, hm w hw] at hl
          rw [store_of_main hmain]
          exact hl
        exact ⟨hloc.bound hold hk, hloc.path hold hk⟩
    · rw [store_congr (main_set_ne hij)] at hl
      exact ⟨hloc.bound hl hk, hloc.path hl hk⟩
  exact ⟨fun hl hk => (hedge hl hk).1, fun hl hk => (hedge hl hk).2⟩

def subsOf (br : Option (Branch σ)) : List σ :=
  (br.map subs).getD []

theorem via_map (t : Store Segment σ) (br : Option (Branch σ)) :
    via t (br.map link) rest =
      if rest = [] then subsOf br else (br.bind iNode).elim [] (items t · rest) := by
  cases br <;> cases rest <;> rfl

theorem via_write (word : Segment) (rest : List Segment)
    (hloc : Located nodes.length loc (store nodes)) (hmain : nodes.main j = .cNode cn)
    (hgrows : nodes <+: nodes') :
    via (store (nodes'.set j m)) ((cn.lookup word).map link) rest =
      via (store nodes) ((cn.lookup word).map link) rest := by
  cases hbr : cn.lookup word with
  | none => rfl
  | some br =>
    have hl : store nodes j word = some br.link := store_eq_some.mpr ⟨cn, br, hmain, hbr, rfl⟩
    exact hloc.via_below (store_write hgrows) hl

end Write

section Descend

def Stops (nodes : Nodes σ) (j : Nat) (word : Segment) (rest : List Segment) : Prop :=
  ∀ cn br k, nodes.main j = .cNode cn → cn.lookup word = some br → br.iNode = some k → rest = []

theorem Stops.iNode_eq_none (h : Stops nodes j word rest) (hmain : nodes.main j = .cNode cn)
    (hbr : cn.lookup word = some br) (hrest : rest ≠ []) : br.iNode = none := by
  by_contra hsome
  obtain ⟨k, hk⟩ := ne_none_iff_exists'.mp hsome
  exact hrest (h cn br k hmain hbr hk)

/-- An attempt at an I-node with the given parents comes along words to another one. -/
inductive Descends (nodes : Nodes σ) : Nat → Option (Nat × Segment) → Option Nat → List Segment →
    Nat → Option (Nat × Segment) → Option Nat → Prop where
  | refl (i : Nat) (above : Option (Nat × Segment)) (pp : Option Nat) :
      Descends nodes i above pp [] i above pp
  | cons {i j k : Nat} {above above' : Option (Nat × Segment)} {pp pp' : Option Nat}
      {word : Segment} {q : List Segment} {cn : CNode σ} {br : Branch σ}
      (hmain : nodes.main i = .cNode cn) (hbr : cn.lookup word = some br) (hj : br.iNode = some j)
      (h : Descends nodes j (some (i, word)) (above.map Prod.fst) q k above' pp') :
      Descends nodes i above pp (word :: q) k above' pp'

variable {above above' : Option (Nat × Segment)}
variable {pp pp' : Option Nat}

theorem exists_descends (nodes : Nodes σ) (i : Nat) (above : Option (Nat × Segment))
    (pp : Option Nat) (hwords : words ≠ []) :
    ∃ q word rest j above' pp', words = q ++ word :: rest ∧
      Descends nodes i above pp q j above' pp' ∧ Stops nodes j word rest := by
  induction words generalizing i above pp with
  | nil => exact absurd rfl hwords
  | cons word words ih =>
    by_cases hstops : Stops nodes i word words
    · exact ⟨[], word, words, i, above, pp, rfl, .refl i above pp, hstops⟩
    · unfold Stops at hstops
      push Not at hstops
      obtain ⟨cn, br, k, hmain, hbr, hk, hne⟩ := hstops
      obtain ⟨q, word', rest, j, above', pp', hsplit, hdescends, hstops⟩ :=
        ih k (some (i, word)) (above.map Prod.fst) hne
      exact ⟨word :: q, word', rest, j, above', pp', by rw [hsplit]; rfl,
        .cons hmain hbr hk hdescends, hstops⟩

variable (h : Descends nodes i above pp q j above' pp')
include h

theorem Descends.walk : walk (store nodes) i q = some j := by
  induction h with
  | refl => rfl
  | cons hmain hbr hj _ ih =>
    simp only [LinkedTrie.walk, bind_eq_some_iff]
    exact ⟨_, store_eq_some.mpr ⟨_, _, hmain, hbr, rfl⟩, _, hj, ih⟩

variable [DecidableEq σ]

theorem Descends.iinsert (hrest : rest ≠ [])
    (sub : σ) : iinsert nodes sub i (above.map Prod.fst) (q ++ rest) =
      iinsert nodes sub j (above'.map Prod.fst) rest := by
  induction h with
  | refl => rfl
  | cons hmain hbr hj _ ih =>
    rw [← ih, cons_append]
    cases hwords : _ ++ rest with
    | nil => exact absurd (append_eq_nil_iff.mp hwords).2 hrest
    | cons next words => simp [Trie.iinsert, hmain, hbr, hj]

theorem Descends.iremove (hrest : rest ≠ [])
    (sub : σ) : iremove nodes sub i above pp (q ++ rest) = iremove nodes sub j above' pp' rest := by
  induction h with
  | refl => rfl
  | cons hmain hbr hj _ ih =>
    rw [← ih, cons_append]
    cases hwords : _ ++ rest with
    | nil => exact absurd (append_eq_nil_iff.mp hwords).2 hrest
    | cons next words => simp [Trie.iremove, hmain, hbr, hj]

end Descend

section Insert

inductive Inserted (nodes : Nodes σ) (sub : σ) (j : Nat) (parent : Option Nat) (word : Segment) :
    List Segment → Nodes σ × Bool → Prop where
  | tombed {rest : List Segment} (hmain : nodes.main j = .tNode) :
      Inserted nodes sub j parent word rest (clean nodes parent, false)
  | present {cn : CNode σ} {br : Branch σ} (hmain : nodes.main j = .cNode cn)
      (hbr : cn.lookup word = some br) (hmem : sub ∈ br.subs) :
      Inserted nodes sub j parent word [] (nodes, true)
  | last {cn : CNode σ} (hmain : nodes.main j = .cNode cn) :
      Inserted nodes sub j parent word [] (nodes.set j (.cNode (cn.insert word
        ⟨(cn.lookup word).bind iNode, sub :: subsOf (cn.lookup word)⟩)), true)
  | below {cn : CNode σ} {rest : List Segment} (hmain : nodes.main j = .cNode cn)
      (hrest : rest ≠ []) (hnone : (cn.lookup word).bind iNode = none) :
      Inserted nodes sub j parent word rest
        (((newCNode nodes rest sub).1 ++ [cNode (newCNode nodes rest sub).2]).set j
          (.cNode (cn.insert word
            ⟨some (newCNode nodes rest sub).1.length, subsOf (cn.lookup word)⟩)), true)

theorem inserted_of_stops [DecidableEq σ] (sub : σ) (parent : Option Nat)
    (hstops : Stops nodes j word rest) :
    Inserted nodes sub j parent word rest (iinsert nodes sub j parent (word :: rest)) := by
  unfold iinsert
  cases hmain : nodes.main j with
  | tNode => exact .tombed hmain
  | cNode cn =>
    have hlast := @Inserted.last _ nodes sub j parent word cn hmain
    have hbelow := @Inserted.below _ nodes sub j parent word cn rest hmain
    dsimp only
    cases hbr : cn.lookup word with
    | none =>
      rw [hbr] at hlast hbelow
      cases rest with
      | nil => exact hlast
      | cons next rest => exact hbelow (cons_ne_nil next rest) rfl
    | some br =>
      rw [hbr] at hlast hbelow
      cases rest with
      | nil =>
        dsimp only
        split_ifs with hmem
        · exact .present hmain hbr hmem
        · simp only [CNode.updated, hbr]
          exact hlast
      | cons next rest =>
        have hchild := hstops.iNode_eq_none hmain hbr (cons_ne_nil next rest)
        simp only [hchild]
        exact hbelow (cons_ne_nil next rest) hchild

theorem exists_inserted [DecidableEq σ] (nodes : Nodes σ) (sub : σ) (hwords : words ≠ []) :
    ∃ q word rest j above pp, words = q ++ word :: rest ∧
      Descends nodes root none none q j above pp ∧
      Inserted nodes sub j (above.map Prod.fst) word rest (iinsert nodes sub root none words) := by
  obtain ⟨q, word, rest, j, above, pp, rfl, hdescends, hstops⟩ :=
    exists_descends nodes root none none hwords
  have heq := hdescends.iinsert (cons_ne_nil word rest) sub
  rw [map_none] at heq
  rw [heq]
  exact ⟨q, word, rest, j, above, pp, rfl, hdescends, inserted_of_stops sub _ hstops⟩

structure Adds (nodes nodes' : Nodes σ) (words : List Segment) (sub : σ) : Prop where
  inv : Inv nodes'
  mem : ∀ path s, s ∈ subscribersAt nodes' path ↔
    s ∈ subscribersAt nodes path ∨ path = words ∧ s = sub

section
variable (hloc : Located nodes.length loc (store nodes))
include hloc

theorem adds_of_write {cn' : CNode σ} (hinv : Inv (nodes'.set j (.cNode cn')))
    (hroot : root < nodes.length)
    (hwalk : walk (store nodes) root q = some j) (hmain : nodes.main j = .cNode cn)
    (hgrows : nodes <+: nodes') (hm : ∀ w, w ≠ word → cn'.lookup w = cn.lookup w)
    (hvia : ∀ rest' s, s ∈ via (store (nodes'.set j (.cNode cn')))
      ((cn'.lookup word).map link) rest' ↔
        s ∈ via (store nodes) ((cn.lookup word).map link) rest' ∨ rest' = rest ∧ s = sub) :
    Adds nodes (nodes'.set j (.cNode cn')) (q ++ word :: rest) sub := by
  obtain ⟨helse, hthrough⟩ := subscribersAt_write (m := .cNode cn') hloc hroot hwalk hmain
    hgrows hm
  refine ⟨hinv, fun path s => ?_⟩
  by_cases hpath : ∃ rest', path = q ++ word :: rest'
  · obtain ⟨rest', rfl⟩ := hpath
    rw [hthrough, subscribersAt_append _ _ hwalk hmain]
    simpa [branches] using hvia rest' s
  · have hne : path ≠ q ++ word :: rest := fun heq => hpath ⟨rest, heq⟩
    rw [helse path (fun rest' heq => hpath ⟨rest', heq⟩)]
    simp [hne]

theorem located_last (hmain : nodes.main j = .cNode cn) (word : Segment) (subs : List σ) :
    Located (nodes.set j (.cNode (cn.insert word
      ⟨(cn.lookup word).bind iNode, subs⟩))).length loc
      (store (nodes.set j (.cNode (cn.insert word
        ⟨(cn.lookup word).bind iNode, subs⟩)))) := by
  refine located_write word hloc hmain (fun w hw => lookup_insert_ne hw) ?_
  intro br k hbr hk
  cases (lookup_insert cn).symm.trans hbr
  obtain ⟨old, hold, hchild⟩ := bind_eq_some_iff.mp hk
  have hl : store nodes j word = some old.link := store_eq_some.mpr ⟨cn, old, hmain, hold, rfl⟩
  exact ⟨hloc.bound hl hchild, hloc.path hl hchild⟩

theorem located_below
    (hmain : nodes.main j = .cNode cn) (word : Segment) (subs : List σ) {child : Nat}
    (hgrown : Grown nodes nodes' child rest sub) :
    ∃ loc', (∀ k < nodes.length, loc' k = loc k) ∧
      Located (nodes'.set j (.cNode (cn.insert word ⟨some child, subs⟩))).length loc'
        (store (nodes'.set j (.cNode (cn.insert word ⟨some child, subs⟩)))) := by
  obtain ⟨loc', hsame, hchild, hloc'⟩ := hgrown.located (loc j ++ [word]) hloc
  have hj := lt_of_main hmain
  have hmain' : nodes'.main j = .cNode cn := by
    obtain ⟨more, rfl⟩ := hgrown.grows
    rw [main_append hj, hmain]
  refine ⟨loc', hsame, located_write word hloc' hmain' (fun w hw => lookup_insert_ne hw) ?_⟩
  intro br k hbr hk
  cases (lookup_insert cn).symm.trans hbr
  cases hk
  rw [hsame j hj]
  exact ⟨hgrown.lt, hchild⟩

end

variable (hinv : Inv nodes) (hwalk : walk (store nodes) root q = some j)
variable (hmain : nodes.main j = .cNode cn)
include hinv hwalk hmain

theorem adds_last (word : Segment) (sub : σ) : Adds nodes (nodes.set j (.cNode (cn.insert word
    ⟨(cn.lookup word).bind iNode, sub :: subsOf (cn.lookup word)⟩))) (q ++ [word]) sub := by
  obtain ⟨loc, hloc⟩ := hinv.located
  refine adds_of_write hloc ⟨?_, loc, located_last hloc hmain word _⟩ hinv.root_lt hwalk hmain
    prefix_rfl (fun w hw => lookup_insert_ne hw) ?_
  · rw [length_set]
    exact hinv.root_lt
  · intro rest' s
    have hsame := via_write (m := .cNode (cn.insert word ⟨(cn.lookup word).bind iNode,
      sub :: subsOf (cn.lookup word)⟩)) word rest' hloc hmain prefix_rfl
    rw [lookup_insert, ← hsame, via_map, via_map]
    cases rest' with
    | nil => simp [subsOf, or_comm]
    | cons next rest' => simp

theorem adds_below (word : Segment) {child : Nat} (hgrown : Grown nodes nodes' child rest sub)
    (hrest : rest ≠ []) (hnone : (cn.lookup word).bind iNode = none) :
    Adds nodes (nodes'.set j (.cNode (cn.insert word ⟨some child, subsOf (cn.lookup word)⟩)))
      (q ++ word :: rest) sub := by
  obtain ⟨loc, hloc⟩ := hinv.located
  obtain ⟨loc', -, hloc'⟩ := located_below hloc hmain word (subsOf (cn.lookup word)) hgrown
  have hj := lt_of_main hmain
  refine adds_of_write hloc ⟨?_, loc', hloc'⟩ hinv.root_lt hwalk hmain hgrown.grows
    (fun w hw => lookup_insert_ne hw) ?_
  · rw [length_set]
    exact hinv.root_lt.trans_le hgrown.grows.length_le
  · intro rest' s
    have hitems := hgrown.items (t := store (nodes'.set j (.cNode (cn.insert word
      ⟨some child, subsOf (cn.lookup word)⟩)))) (fun k hk _ => store_congr (main_set_ne (by omega)))
    rw [lookup_insert, via_map, via_map, hnone]
    cases rest' with
    | nil => simp [subsOf, hrest.symm]
    | cons next rest' => simp [hitems]

omit hmain in
theorem Inserted.adds {parent : Option Nat} {done : Nodes σ × Bool}
    (h : Inserted nodes sub j parent word rest done) :
    done.2 = false ∧ Quiet nodes done.1 ∨
      done.2 = true ∧ Adds nodes done.1 (q ++ word :: rest) sub := by
  cases h with
  | tombed hmain => exact .inl ⟨rfl, quiet_clean nodes parent⟩
  | present hmain hbr hmem =>
    refine .inr ⟨rfl, hinv, fun path s => ⟨.inl, ?_⟩⟩
    rintro (hs | ⟨rfl, rfl⟩)
    · exact hs
    · rw [subscribersAt_append _ _ hwalk hmain, hbr]
      exact hmem
  | last hmain => exact .inr ⟨rfl, adds_last hinv hwalk hmain word sub⟩
  | below hmain hrest hnone =>
    exact .inr ⟨rfl, adds_below hinv hwalk hmain word (grown_newCNode nodes hrest sub) hrest hnone⟩

omit hinv hwalk hmain in
theorem Inserted.located {parent : Option Nat} {done : Nodes σ × Bool}
    (hloc : Located nodes.length loc (store nodes)) (h : Inserted nodes sub j parent word rest done)
    (hdone : done.2 = true) :
    ∃ loc', (∀ k < nodes.length, loc' k = loc k) ∧ Located done.1.length loc' (store done.1) := by
  cases h with
  | tombed => cases hdone
  | present => exact ⟨loc, fun _ _ => rfl, hloc⟩
  | last hmain => exact ⟨loc, fun _ _ => rfl, located_last hloc hmain word _⟩
  | below hmain hrest => exact located_below hloc hmain word _ (grown_newCNode nodes hrest sub)

end Insert

section Remove

structure Removes (nodes nodes' : Nodes σ) (words : List Segment) (sub : σ) : Prop where
  inv : Inv nodes'
  mem : ∀ path s, s ∈ subscribersAt nodes' path ↔
    s ∈ subscribersAt nodes path ∧ ¬ (path = words ∧ s = sub)

theorem Removes.of_not_mem (hinv : Inv nodes) (h : sub ∉ subscribersAt nodes words) :
    Removes nodes nodes words sub := by
  refine ⟨hinv, fun path s => ⟨fun hs => ⟨hs, ?_⟩, And.left⟩⟩
  rintro ⟨rfl, rfl⟩
  exact h hs

theorem Removes.quiet {nodes'' : Nodes σ} (h : Removes nodes nodes' words sub)
    (hquiet : Quiet nodes' nodes'') : Removes nodes nodes'' words sub := by
  refine ⟨hquiet.inv h.inv, fun path s => ?_⟩
  rw [subscribersAt, hquiet.items]
  exact h.mem path s

variable [DecidableEq σ]

inductive Removed (nodes : Nodes σ) (sub : σ) (j : Nat) :
    Option (Nat × Segment) → Option Nat → Segment → List Segment → Nodes σ × Bool → Prop where
  | tombed {above : Option (Nat × Segment)} {pp : Option Nat} {word : Segment}
      {rest : List Segment} (hmain : nodes.main j = .tNode) :
      Removed nodes sub j above pp word rest (clean nodes (above.map Prod.fst), false)
  | absent {above : Option (Nat × Segment)} {pp : Option Nat} {word : Segment}
      {rest : List Segment} {cn : CNode σ} (hmain : nodes.main j = .cNode cn)
      (hnot : sub ∉ via (store nodes) ((cn.lookup word).map link) rest) :
      Removed nodes sub j above pp word rest (nodes, true)
  | kept {above : Option (Nat × Segment)} {pp : Option Nat} {word : Segment} {cn : CNode σ}
      {br : Branch σ} (hmain : nodes.main j = .cNode cn) (hbr : cn.lookup word = some br)
      (hmem : sub ∈ br.subs) (hlive : above = none ∨
        tombed (nodes.set j (toContracted (cn.removed word sub) j)) j = false) :
      Removed nodes sub j above pp word []
        (nodes.set j (toContracted (cn.removed word sub) j), true)
  | emptied {parent : Nat} {prev : Segment} {pp : Option Nat} {word : Segment} {cn : CNode σ}
      {br : Branch σ} (hmain : nodes.main j = .cNode cn) (hbr : cn.lookup word = some br)
      (hmem : sub ∈ br.subs)
      (htombed : tombed (nodes.set j (toContracted (cn.removed word sub) j)) j = true) :
      Removed nodes sub j (some (parent, prev)) pp word []
        (cleanParent (nodes.set j (toContracted (cn.removed word sub) j)) j parent pp prev, true)

theorem removed_of_stops (sub : σ) (above : Option (Nat × Segment)) (pp : Option Nat)
    (hstops : Stops nodes j word rest) :
    Removed nodes sub j above pp word rest (iremove nodes sub j above pp (word :: rest)) := by
  unfold iremove
  cases hmain : nodes.main j with
  | tNode => exact .tombed hmain
  | cNode cn =>
    dsimp only
    cases hbr : cn.lookup word with
    | none => exact .absent hmain (by rw [hbr]; exact not_mem_nil)
    | some br =>
      cases rest with
      | cons next rest =>
        have hchild := hstops.iNode_eq_none hmain hbr (cons_ne_nil next rest)
        simp only [hchild]
        exact .absent hmain (by simp [hbr, via_cons, link, hchild])
      | nil =>
        dsimp only
        by_cases hmem : sub ∈ br.subs
        · rw [if_neg (not_not.mpr hmem)]
          cases above with
          | none => exact .kept hmain hbr hmem (.inl rfl)
          | some above =>
            dsimp only
            split_ifs with htombed
            · exact .emptied hmain hbr hmem htombed
            · exact .kept hmain hbr hmem (.inr (by simpa using htombed))
        · rw [if_pos hmem]
          exact .absent hmain (by rw [hbr]; exact hmem)

theorem exists_removed (nodes : Nodes σ) (sub : σ) (hwords : words ≠ []) :
    ∃ q word rest j above pp, words = q ++ word :: rest ∧
      Descends nodes root none none q j above pp ∧
      Removed nodes sub j above pp word rest (iremove nodes sub root none none words) := by
  obtain ⟨q, word, rest, j, above, pp, rfl, hdescends, hstops⟩ :=
    exists_descends nodes root none none hwords
  rw [hdescends.iremove (cons_ne_nil word rest) sub]
  exact ⟨q, word, rest, j, above, pp, rfl, hdescends, removed_of_stops sub above pp hstops⟩

theorem lookup_removed_ne {w : Segment} (hw : w ≠ word) :
    (cn.removed word sub).lookup w = cn.lookup w := by
  unfold CNode.removed
  split
  · rfl
  · dsimp only
    split_ifs
    · exact lookup_erase_ne hw
    · exact lookup_insert_ne hw

section
variable (hbr : cn.lookup word = some br)
include hbr

theorem lookup_removed : (cn.removed word sub).lookup word =
      if (br.removed sub).subs = [] ∧ (br.removed sub).iNode = none then none
      else some (br.removed sub) := by
  unfold CNode.removed
  rw [hbr]
  dsimp only
  split_ifs
  · exact lookup_erase word cn
  · exact lookup_insert cn

theorem children_of_removed (w : Segment) (new : Branch σ) (k : Nat)
    (hnew : (toContracted (cn.removed word sub) j).branches.lookup w = some new)
    (hk : new.iNode = some k) : ∃ old, cn.lookup w = some old ∧ old.iNode = some k := by
  rw [lookup_toContracted] at hnew
  by_cases hw : w = word
  · subst hw
    rw [lookup_removed hbr] at hnew
    split_ifs at hnew
    cases hnew
    exact ⟨br, hbr, hk⟩
  · exact ⟨new, (lookup_removed_ne hw).symm.trans hnew, hk⟩

theorem via_removed (t : Store Segment σ) (rest : List Segment) :
    via t (((cn.removed word sub).lookup word).map link) rest =
      via t (some (br.removed sub).link) rest := by
  rw [lookup_removed hbr]
  split_ifs with hempty
  · cases rest with
    | nil => exact hempty.1.symm
    | cons next rest =>
      rw [via_cons]
      simp [link, hempty.2]
  · rfl

theorem removes_last (hinv : Inv nodes) (hwalk : walk (store nodes) root q = some j)
    (hmain : nodes.main j = .cNode cn) (sub : σ) :
    Removes nodes (nodes.set j (toContracted (cn.removed word sub) j)) (q ++ [word]) sub := by
  obtain ⟨loc, hloc⟩ := hinv.located
  have hkeep : ∀ w, w ≠ word →
      (toContracted (cn.removed word sub) j).branches.lookup w = cn.lookup w := by
    intro w hw
    rw [lookup_toContracted, lookup_removed_ne hw]
  obtain ⟨helse, hthrough⟩ := subscribersAt_write hloc hinv.root_lt hwalk hmain prefix_rfl hkeep
  refine ⟨⟨?_, loc, ?_⟩, fun path s => ?_⟩
  · rw [length_set]
    exact hinv.root_lt
  · rw [length_set]
    exact hloc.cut (child_of_set hmain (children_of_removed hbr))
  · by_cases hpath : ∃ rest, path = q ++ word :: rest
    · obtain ⟨rest, rfl⟩ := hpath
      have hsame := via_write (m := toContracted (cn.removed word sub) j) word rest hloc hmain
        prefix_rfl
      rw [hthrough, subscribersAt_append _ _ hwalk hmain, lookup_toContracted, via_removed hbr,
        ← hsame, hbr]
      cases rest with
      | nil => simp [link, removed]
      | cons next rest => simp [via_cons, link, removed]
    · have hne : path ≠ q ++ [word] := fun heq => hpath ⟨[], heq⟩
      rw [helse path (fun rest heq => hpath ⟨rest, heq⟩)]
      simp [hne]

end

theorem Removed.removes {above : Option (Nat × Segment)} {pp : Option Nat} {done : Nodes σ × Bool}
    (hinv : Inv nodes) (hwalk : walk (store nodes) root q = some j)
    (h : Removed nodes sub j above pp word rest done) :
    done.2 = false ∧ Quiet nodes done.1 ∨
      done.2 = true ∧ Removes nodes done.1 (q ++ word :: rest) sub := by
  cases h with
  | tombed hmain => exact .inl ⟨rfl, quiet_clean nodes _⟩
  | absent hmain hnot =>
    refine .inr ⟨rfl, .of_not_mem hinv ?_⟩
    rwa [subscribersAt_append _ _ hwalk hmain]
  | kept hmain hbr => exact .inr ⟨rfl, removes_last hbr hinv hwalk hmain sub⟩
  | emptied hmain hbr =>
    exact .inr ⟨rfl, (removes_last hbr hinv hwalk hmain sub).quiet (quiet_cleanParent ..)⟩

end Remove

section Lookup

theorem matchPath_nil_iff {path : List Segment} :
    matchPath path [] = true ↔ path = [] ∨ path = [multiWildcard] := by
  cases path with
  | nil => simp [matchPath]
  | cons seg path => cases path <;> simp [matchPath]

theorem matchPath_cons_iff {path : List Segment} :
    matchPath path (word :: words) = true ↔
      path = [multiWildcard] ∨
        ∃ rest, (path = word :: rest ∨ path = wildcard :: rest) ∧ matchPath rest words = true := by
  cases path with
  | nil => simp [matchPath]
  | cons seg path =>
    simp only [matchPath, Bool.or_eq_true, Bool.and_eq_true, decide_eq_true_eq, List.isEmpty_iff,
      List.cons.injEq]
    constructor
    · rintro (h | ⟨hseg, h⟩)
      · exact .inl h
      · exact .inr ⟨path, by tauto, h⟩
    · rintro (h | ⟨rest, (⟨hseg, rfl⟩ | ⟨hseg, rfl⟩), h⟩)
      · exact .inl h
      · exact .inr ⟨.inl hseg, h⟩
      · exact .inr ⟨.inr hseg, h⟩

theorem mem_lastSubscribers {s : σ} :
    s ∈ lastSubscribers nodes br ↔
      s ∈ via (store nodes) (some br.link) [] ∨
        s ∈ via (store nodes) (some br.link) [multiWildcard] := by
  unfold lastSubscribers
  rw [mem_append, via_nil, via_cons]
  refine or_congr Iff.rfl ?_
  unfold link
  cases br.iNode with
  | none => rfl
  | some k =>
    rw [elim_some, items_cons]
    cases hmain : nodes.main k with
    | tNode => simp [store, hmain, branches]
    | cNode cn =>
      cases hmulti : cn.lookup multiWildcard <;>
        simp [store, hmain, branches, hmulti, link]

theorem mem_bLookup {look : Nat → Except (Nodes σ) (List σ)} {br : Option (Branch σ)}
    {subs : List σ} (hlook : ∀ k found s, look k = .ok found →
      words ≠ [] → (s ∈ found ↔
        ∃ path, s ∈ items (store nodes) k path ∧ matchPath path words = true))
    (h : bLookup nodes look br words = .ok subs) (s : σ) :
    s ∈ subs ↔ ∃ path, s ∈ via (store nodes) (br.map link) path ∧
      matchPath path words = true := by
  unfold bLookup at h
  cases br with
  | none =>
    obtain rfl := Except.ok.inj h
    simp
  | some br =>
    cases words with
    | nil =>
      obtain rfl := Except.ok.inj h
      simp only [matchPath_nil_iff, mem_lastSubscribers, map_some]
      constructor
      · rintro (hs | hs)
        · exact ⟨[], hs, .inl rfl⟩
        · exact ⟨[multiWildcard], hs, .inr rfl⟩
      · rintro ⟨path, hs, rfl | rfl⟩
        · exact .inl hs
        · exact .inr hs
    | cons next words =>
      have hvia : ∀ path, matchPath path (next :: words) = true →
          via (store nodes) (some br.link) path =
            br.iNode.elim [] (items (store nodes) · path) := by
        intro path hmatch
        cases path with
        | nil => simp [matchPath] at hmatch
        | cons seg path => rfl
      dsimp only at h
      cases hchild : br.iNode with
      | none =>
        rw [hchild] at h
        obtain rfl := Except.ok.inj h
        constructor
        · intro h
          cases h
        · rintro ⟨path, hs, hmatch⟩
          rw [map_some, hvia path hmatch, hchild] at hs
          exact hs
      | some k =>
        rw [hchild] at h
        rw [hlook k subs s h (cons_ne_nil _ _)]
        refine exists_congr fun path => and_congr_left fun hmatch => ?_
        rw [map_some, hvia path hmatch, hchild]
        rfl

theorem error_of_bLookup {look : Nat → Except (Nodes σ) (List σ)} {br : Option (Branch σ)}
    (h : bLookup nodes look br words = .error nodes') :
    ∃ b k, br = some b ∧ b.iNode = some k ∧ words ≠ [] ∧ look k = .error nodes' := by
  unfold bLookup at h
  cases br with
  | none => cases h
  | some br =>
    cases words with
    | nil => cases h
    | cons next words =>
      dsimp only at h
      cases hchild : br.iNode with
      | none =>
        rw [hchild] at h
        cases h
      | some k =>
        rw [hchild] at h
        exact ⟨br, k, rfl, hchild, cons_ne_nil _ _, h⟩

/-- What an attempt at an I-node gives: each matching subscriber once, or a trie with the same
subscriptions. -/
def Looks (nodes : Nodes σ) (i : Nat) (words : List Segment) :
    Except (Nodes σ) (List σ) → Prop
  | .ok subs => subs.Nodup ∧ ∀ s, s ∈ subs ↔
      ∃ path, s ∈ items (store nodes) i path ∧ matchPath path words = true
  | .error nodes' => Quiet nodes nodes'

theorem looks_ilookup [DecidableEq σ] (nodes : Nodes σ) (i : Nat) (parent : Option Nat)
    (hwords : words ≠ []) (hsegs : [] ∉ words) :
    Looks nodes i words (ilookup nodes i parent words) := by
  induction words generalizing i parent with
  | nil => exact absurd rfl hwords
  | cons word words ih =>
    have hlook : ∀ k, words ≠ [] → Looks nodes k words (ilookup nodes k (some i) words) :=
      fun k hne => ih k (some i) hne (fun h => hsegs (mem_cons_of_mem word h))
    have hfound : ∀ k found s, ilookup nodes k (some i) words = .ok found → words ≠ [] →
        (s ∈ found ↔ ∃ path, s ∈ items (store nodes) k path ∧ matchPath path words = true) := by
      intro k found s hk hne
      have hlooks := hlook k hne
      rw [hk] at hlooks
      exact hlooks.2 s
    have hquiet : ∀ br nodes', bLookup nodes (fun k => ilookup nodes k (some i) words) br words =
        .error nodes' → Quiet nodes nodes' := by
      intro br nodes' hbr
      obtain ⟨-, k, -, -, hne, hk⟩ := error_of_bLookup hbr
      have hlooks := hlook k hne
      rw [hk] at hlooks
      exact hlooks
    rw [ilookup]
    cases hmain : nodes.main i with
    | tNode => exact quiet_clean nodes parent
    | cNode cn =>
      dsimp only
      rw [if_neg (fun h : word = [] => hsegs (h ▸ mem_cons_self))]
      cases hexact : bLookup nodes (fun k => ilookup nodes k (some i) words) (cn.lookup word)
          words with
      | error nodes' => exact hquiet _ _ hexact
      | ok exact_ =>
        cases hsingle : bLookup nodes (fun k => ilookup nodes k (some i) words)
            (cn.lookup wildcard) words with
        | error nodes' => exact hquiet _ _ hsingle
        | ok single =>
          refine ⟨nodup_dedup _, fun s => ?_⟩
          have hmulti : s ∈ ((cn.lookup multiWildcard).map subs).getD [] ↔
              s ∈ via (store nodes) ((cn.lookup multiWildcard).map link) [] := by
            rw [via_map, if_pos rfl, subsOf]
          have hat : ∀ seg rest, items (store nodes) i (seg :: rest) =
              via (store nodes) ((cn.lookup seg).map link) rest := by
            intro seg rest
            rw [items_cons, store_of_main hmain]
            rfl
          rw [mem_dedup, mem_append, mem_append, mem_bLookup hfound hexact,
            mem_bLookup hfound hsingle, hmulti]
          constructor
          · rintro ((⟨rest, hs, hmatch⟩ | ⟨rest, hs, hmatch⟩) | hs)
            · exact ⟨word :: rest, by rwa [hat], matchPath_cons_iff.mpr
                (.inr ⟨rest, .inl rfl, hmatch⟩)⟩
            · exact ⟨wildcard :: rest, by rwa [hat],
                matchPath_cons_iff.mpr (.inr ⟨rest, .inr rfl, hmatch⟩)⟩
            · exact ⟨[multiWildcard], by rwa [hat], matchPath_cons_iff.mpr (.inl rfl)⟩
          · rintro ⟨path, hs, hmatch⟩
            obtain rfl | ⟨rest, rfl | rfl, hrest⟩ := matchPath_cons_iff.mp hmatch
            · rw [hat] at hs
              exact .inr hs
            · rw [hat] at hs
              exact .inl (.inl ⟨rest, hs, hrest⟩)
            · rw [hat] at hs
              exact .inl (.inr ⟨rest, hs, hrest⟩)

end Lookup

end MessageLoop.Trie
