import MessageLoop.Lib.Retry
import MessageLoop.Lib.Weight
import MessageLoop.Topics.TrieSpec

/-!
Which calls of the trie matcher return.

An attempt fails when it meets a T-node, and cleans the node above it. That removes the branch to
the T-node unless the branch has subscribers of its own: then every further attempt fails as well.
-/

namespace MessageLoop.Trie

open Topics LinkedTrie List Option

variable {σ : Type} {nodes nodes' : Nodes σ} {i j k : Nat} {word w : Segment}
variable {words rest q : List Segment} {br : Branch σ} {sub : σ} {follows : Segment → List Segment}
variable {parent pp pp' : Option Nat} {above above' : Option (Nat × Segment)}
variable {done : Nodes σ × Bool}

section Meets

/-- The branches that `Subscribe` and `Unsubscribe` follow for a word. -/
def exactly (word : Segment) : List Segment :=
  [word]

def orWildcard (word : Segment) : List Segment :=
  [word, wildcard]

/-- A walk from an I-node along the words meets a T-node below the branch `br` of the I-node `k`. -/
inductive Meets (nodes : Nodes σ) (follows : Segment → List Segment) :
    Nat → List Segment → Nat → Branch σ → Prop where
  | here {i j : Nat} {word w : Segment} {words : List Segment} {br : Branch σ}
      (hwords : words ≠ []) (hw : w ∈ follows word)
      (hbr : (nodes.main i).branches.lookup w = some br) (hj : br.iNode = some j)
      (htombed : nodes.tombed j = true) : Meets nodes follows i (word :: words) i br
  | deeper {i j k : Nat} {word w : Segment} {words : List Segment} {br br' : Branch σ}
      (hw : w ∈ follows word) (hbr : (nodes.main i).branches.lookup w = some br)
      (hj : br.iNode = some j) (h : Meets nodes follows j words k br') :
      Meets nodes follows i (word :: words) k br'

def Stuck (nodes : Nodes σ) (follows : Segment → List Segment) (i : Nat) (words : List Segment) :
    Prop :=
  ∃ k br, Meets nodes follows i words k br ∧ br.subs ≠ []

theorem tombed_iff : nodes.tombed i = true ↔ nodes.main i = .tNode := by
  unfold Nodes.tombed
  cases nodes.main i <;> simp

theorem not_tombed_of_lookup (h : (nodes.main i).branches.lookup word = some br) :
    nodes.tombed i = false := by
  unfold Nodes.tombed
  cases hmain : nodes.main i with
  | cNode cn => rfl
  | tNode =>
    rw [hmain] at h
    cases h

variable (h : Meets nodes follows i words k br)
include h

theorem Meets.not_tombed : nodes.tombed i = false := by
  cases h with
  | here _ _ hbr | deeper _ hbr => exact not_tombed_of_lookup hbr

theorem Meets.words_ne_nil : words ≠ [] := by
  cases h <;> exact cons_ne_nil _ _

theorem Meets.branch :
    ∃ w j, (nodes.main k).branches.lookup w = some br ∧ br.iNode = some j ∧
      nodes.tombed j = true := by
  induction h with
  | here _ _ hbr hj htombed => exact ⟨_, _, hbr, hj, htombed⟩
  | deeper _ _ _ _ ih => exact ih

end Meets

section Clean
variable {p : Option Nat}

theorem tombed_clean (nodes : Nodes σ) (p : Option Nat) (j : Nat) :
    (clean nodes p).tombed j = nodes.tombed j := by
  cases p with
  | none => rfl
  | some i =>
    unfold clean
    dsimp only
    split
    case h_1 cn hmain =>
      unfold Nodes.tombed
      by_cases hj : j = i
      · subst hj
        rw [main_set_self (lt_of_main hmain), hmain]
      · rw [main_set_ne hj]
    case h_2 => rfl

theorem lookup_clean (nodes : Nodes σ) (p : Option Nat) (i : Nat) (w : Segment) :
    ((clean nodes p).main i).branches.lookup w =
      if p = some i then ((nodes.main i).branches.lookup w).filter (!prunable nodes ·)
      else (nodes.main i).branches.lookup w := by
  cases p with
  | none => rfl
  | some k =>
    unfold clean
    dsimp only
    split
    case h_1 cn hmain =>
      by_cases hk : k = i
      · subst hk
        rw [if_pos rfl, main_set_self (lt_of_main hmain), hmain]
        exact lookup_toCompressed w
      · rw [if_neg (by simpa using hk), main_set_ne (Ne.symm hk)]
    case h_2 hmain =>
      split_ifs with hk
      · cases hk
        rw [hmain]
        rfl
      · rfl

theorem lookup_of_clean (h : ((clean nodes p).main i).branches.lookup w = some br) :
    (nodes.main i).branches.lookup w = some br := by
  rw [lookup_clean] at h
  split_ifs at h
  · exact (filter_eq_some_iff.mp h).1
  · exact h

theorem lookup_clean_of_not_prunable (h : (nodes.main i).branches.lookup w = some br)
    (hkept : prunable nodes br = false) : ((clean nodes p).main i).branches.lookup w = some br := by
  rw [lookup_clean]
  split_ifs
  · rw [h]
    simp [hkept]
  · exact h

theorem not_prunable_of_subs (h : br.subs ≠ []) : prunable nodes br = false := by
  simp [prunable, h]

theorem not_prunable_of_child (hj : br.iNode = some j) (h : nodes.tombed j = false) :
    prunable nodes br = false := by
  simp [prunable, hj, h]

theorem Meets.of_clean (h : Meets (clean nodes p) follows i words k br) :
    Meets nodes follows i words k br := by
  induction h with
  | here hwords hw hbr hj htombed =>
    exact .here hwords hw (lookup_of_clean hbr) hj (by rw [← tombed_clean nodes p]; exact htombed)
  | deeper hw hbr hj _ ih => exact .deeper hw (lookup_of_clean hbr) hj ih

theorem Meets.cleaned (h : Meets nodes follows i words k br) (hsubs : br.subs ≠ [])
    (p : Option Nat) : Meets (clean nodes p) follows i words k br := by
  induction h with
  | here hwords hw hbr hj htombed =>
    exact .here hwords hw (lookup_clean_of_not_prunable hbr (not_prunable_of_subs hsubs)) hj
      (by rw [tombed_clean]; exact htombed)
  | deeper hw hbr hj h ih =>
    exact .deeper hw (lookup_clean_of_not_prunable hbr (not_prunable_of_child hj h.not_tombed)) hj
      (ih hsubs)

theorem stuck_clean (h : Stuck nodes follows i words) (p : Option Nat) :
    Stuck (Trie.clean nodes p) follows i words := by
  obtain ⟨k, br, hmeets, hsubs⟩ := h
  exact ⟨k, br, hmeets.cleaned hsubs p, hsubs⟩

theorem stuck_of_clean (h : Stuck (Trie.clean nodes p) follows i words) :
    Stuck nodes follows i words := by
  obtain ⟨k, br, hmeets, hsubs⟩ := h
  exact ⟨k, br, hmeets.of_clean, hsubs⟩

def branchCount (nodes : Nodes σ) : Nat :=
  (nodes.map fun m => m.branches.entries.length).sum

theorem branchCount_set {m : MainNode σ} {cn : CNode σ} (hmain : nodes.main i = .cNode cn)
    (hlt : m.branches.entries.length < cn.entries.length) :
    branchCount (nodes.set i m) < branchCount nodes := by
  have hi := lt_of_main hmain
  have hget : nodes[i]? = some (.cNode cn) := by
    rw [getElem?_eq_getElem hi, ← hmain]
    simp [Nodes.main, getD_eq_getElem?_getD, hi]
  have hsum := Weight.sum_map_set (fun m : MainNode σ => m.branches.entries.length) m hget
  have hbranches : (MainNode.cNode cn).branches = cn := rfl
  rw [hbranches] at hsum
  unfold branchCount
  omega

theorem Meets.branchCount_lt (h : Meets nodes follows i words k br) (hsubs : br.subs = []) :
    branchCount (Trie.clean nodes (some k)) < branchCount nodes := by
  obtain ⟨w, j, hbr, hj, htombed⟩ := h.branch
  cases hmain : nodes.main k with
  | tNode =>
    rw [hmain] at hbr
    cases hbr
  | cNode cn =>
    rw [hmain] at hbr
    have hmem : ⟨w, br⟩ ∈ cn.entries := AList.mem_lookup_iff.mp hbr
    have hpruned : prunable nodes br = true := by simp [prunable, hsubs, hj, htombed]
    unfold Trie.clean
    dsimp only
    rw [hmain]
    refine branchCount_set hmain (length_filter_lt_length_iff_exists.mpr ⟨⟨w, br⟩, hmem, ?_⟩)
    simp [hpruned]

end Clean

section Updates

theorem Descends.meets (h : Descends nodes i above pp q j above' pp') (hi : nodes.tombed i = false)
    (hrest : rest ≠ []) (htombed : nodes.tombed j = true) :
    ∃ k br, above'.map Prod.fst = some k ∧ Meets nodes exactly i (q ++ rest) k br := by
  induction h with
  | refl =>
    rw [hi] at htombed
    cases htombed
  | @cons i l _ _ _ _ _ word _ _ br hmain hbr hl hbelow ih =>
    have hlookup : (nodes.main i).branches.lookup word = some br := by rw [hmain]; exact hbr
    have hword : word ∈ exactly word := mem_singleton_self word
    cases hl' : nodes.tombed l with
    | true =>
      -- A T-node has no branches to follow.
      cases hbelow with
      | refl => exact ⟨i, br, rfl, .here hrest hword hlookup hl hl'⟩
      | cons hmain' =>
        rw [tombed_iff.mp hl'] at hmain'
        cases hmain'
    | false =>
      obtain ⟨k, br', hk, hmeets⟩ := ih hl' htombed
      exact ⟨k, br', hk, .deeper hword hlookup hl hmeets⟩

theorem lookup_branches (h : (nodes.main i).branches.lookup w = some br) :
    ∃ cn, nodes.main i = .cNode cn ∧ cn.lookup w = some br := by
  cases hmain : nodes.main i with
  | tNode =>
    rw [hmain] at h
    cases h
  | cNode cn =>
    rw [hmain] at h
    exact ⟨cn, rfl, h⟩

theorem Meets.descends (h : Meets nodes exactly i words k br) (above : Option (Nat × Segment))
    (pp : Option Nat) :
    ∃ q rest j w pp', words = q ++ rest ∧ rest ≠ [] ∧ nodes.main j = .tNode ∧
      Descends nodes i above pp q j (some (k, w)) pp' := by
  induction h generalizing above pp with
  | here hwords hw hbr hj htombed =>
    obtain rfl := mem_singleton.mp hw
    obtain ⟨cn, hmain, hcn⟩ := lookup_branches hbr
    exact ⟨[_], _, _, _, _, rfl, hwords, tombed_iff.mp htombed, .cons hmain hcn hj (.refl ..)⟩
  | @deeper i _ _ word _ _ _ _ hw hbr hj _ ih =>
    obtain rfl := mem_singleton.mp hw
    obtain ⟨cn, hmain, hcn⟩ := lookup_branches hbr
    obtain ⟨q, rest, l, w, pp', rfl, hrest, htombed, hdescends⟩ :=
      ih (some (i, _)) (above.map Prod.fst)
    exact ⟨_ :: q, rest, l, w, pp', rfl, hrest, htombed, .cons hmain hcn hj hdescends⟩

variable [DecidableEq σ]

omit [DecidableEq σ] in
theorem Inserted.fails (h : Inserted nodes sub j parent word rest done)
    (hdone : done = (nodes', false)) :
    nodes.tombed j = true ∧ nodes' = clean nodes parent := by
  cases h with
  | tombed hmain => exact ⟨tombed_iff.mpr hmain, (Prod.mk.inj hdone).1.symm⟩
  | present | last | below => cases hdone

theorem Removed.fails (h : Removed nodes sub j above pp word rest done)
    (hdone : done = (nodes', false)) :
    nodes.tombed j = true ∧ nodes' = clean nodes (above.map Prod.fst) := by
  cases h with
  | tombed hmain => exact ⟨tombed_iff.mpr hmain, (Prod.mk.inj hdone).1.symm⟩
  | absent | kept | emptied => cases hdone

theorem insert_fails (hroot : nodes.tombed root = false) (hwords : words ≠ [])
    (h : iinsert nodes sub root none words = (nodes', false)) :
    ∃ k br, Meets nodes exactly root words k br ∧ nodes' = clean nodes (some k) := by
  obtain ⟨q, word, rest, j, above, pp, rfl, hdescends, hinserted⟩ :=
    exists_inserted nodes sub hwords
  obtain ⟨htombed, hclean⟩ := hinserted.fails h
  obtain ⟨k, br, hk, hmeets⟩ := hdescends.meets hroot (cons_ne_nil word rest) htombed
  exact ⟨k, br, hmeets, hk ▸ hclean⟩

theorem remove_fails (hroot : nodes.tombed root = false) (hwords : words ≠ [])
    (h : iremove nodes sub root none none words = (nodes', false)) :
    ∃ k br, Meets nodes exactly root words k br ∧ nodes' = clean nodes (some k) := by
  obtain ⟨q, word, rest, j, above, pp, rfl, hdescends, hremoved⟩ :=
    exists_removed nodes sub hwords
  obtain ⟨htombed, hclean⟩ := hremoved.fails h
  obtain ⟨k, br, hk, hmeets⟩ := hdescends.meets hroot (cons_ne_nil word rest) htombed
  exact ⟨k, br, hmeets, hk ▸ hclean⟩

theorem Meets.iinsert (h : Meets nodes exactly root words k br) (sub : σ) :
    iinsert nodes sub root none words = (clean nodes (some k), false) := by
  obtain ⟨q, rest, j, w, pp, rfl, hrest, hmain, hdescends⟩ := h.descends none none
  have heq := hdescends.iinsert hrest sub
  rw [map_none] at heq
  rw [heq]
  cases rest with
  | nil => exact absurd rfl hrest
  | cons word rest => simp [Trie.iinsert, hmain]

theorem Meets.iremove (h : Meets nodes exactly root words k br) (sub : σ) :
    iremove nodes sub root none none words = (clean nodes (some k), false) := by
  obtain ⟨q, rest, j, w, pp, rfl, hrest, hmain, hdescends⟩ := h.descends none none
  rw [hdescends.iremove hrest sub]
  cases rest with
  | nil => exact absurd rfl hrest
  | cons word rest => simp [Trie.iremove, hmain]

end Updates

section Lookups
variable [DecidableEq σ]

theorem lookup_fails (hi : nodes.tombed i = false)
    (h : ilookup nodes i parent words = .error nodes') :
    ∃ k br, Meets nodes orWildcard i words k br ∧ nodes' = clean nodes (some k) := by
  induction words generalizing i parent with
  | nil => cases h
  | cons word words ih =>
    have hbranch (w : Segment) (hw : w ∈ orWildcard word)
        (herror : bLookup nodes (fun j => ilookup nodes j (some i) words)
          ((nodes.main i).branches.lookup w) words = .error nodes') :
        ∃ k br, Meets nodes orWildcard i (word :: words) k br ∧ nodes' = clean nodes (some k) := by
      obtain ⟨br, j, hbr, hj, hwords, hlook⟩ := error_of_bLookup herror
      cases htombed : nodes.tombed j with
      | true =>
        refine ⟨i, br, .here hwords hw hbr hj htombed, ?_⟩
        cases words with
        | nil => exact absurd rfl hwords
        | cons next words =>
          simp only [ilookup, tombed_iff.mp htombed] at hlook
          exact (Except.error.inj hlook).symm
      | false =>
        obtain ⟨k, br', hmeets, hclean⟩ := ih htombed hlook
        exact ⟨k, br', .deeper hw hbr hj hmeets, hclean⟩
    rw [ilookup] at h
    split at h
    case h_1 hmain =>
      rw [tombed_iff.mpr hmain] at hi
      cases hi
    case h_2 cn hmain =>
      split_ifs at h
      have hbranches : (nodes.main i).branches = cn := by rw [hmain]; rfl
      rw [hbranches] at hbranch
      cases hexact : bLookup nodes (fun j => ilookup nodes j (some i) words) (cn.lookup word)
          words with
      | error cleaned =>
        rw [hexact] at h
        obtain rfl := Except.error.inj h
        exact hbranch word (by simp [orWildcard]) hexact
      | ok found =>
        rw [hexact] at h
        cases hsingle : bLookup nodes (fun j => ilookup nodes j (some i) words)
            (cn.lookup wildcard) words with
        | error cleaned =>
          rw [hsingle] at h
          obtain rfl := Except.error.inj h
          exact hbranch wildcard (by simp [orWildcard]) hsingle
        | ok found' =>
          rw [hsingle] at h
          cases h

theorem ilookup_error_of_branch (hw : w ∈ orWildcard word) (hword : word ≠ []) (hwords : words ≠ [])
    (hbr : (nodes.main i).branches.lookup w = some br) (hj : br.iNode = some j)
    (hlook : ∃ cleaned, ilookup nodes j (some i) words = .error cleaned) :
    ∃ cleaned, ilookup nodes i parent (word :: words) = .error cleaned := by
  obtain ⟨cn, hmain, hcn⟩ := lookup_branches hbr
  obtain ⟨cleaned, hlook⟩ := hlook
  have herror : bLookup nodes (fun j => ilookup nodes j (some i) words) (cn.lookup w) words =
      .error cleaned := by
    rw [hcn]
    cases words with
    | nil => exact absurd rfl hwords
    | cons next words => simpa [bLookup, hj] using hlook
  rw [ilookup, hmain]
  dsimp only
  rw [if_neg hword]
  rcases mem_pair.mp hw with rfl | rfl
  · rw [herror]
    exact ⟨cleaned, rfl⟩
  · cases bLookup nodes (fun j => ilookup nodes j (some i) words) (cn.lookup word) words with
    | error cleaned' => exact ⟨cleaned', rfl⟩
    | ok found =>
      rw [herror]
      exact ⟨cleaned, rfl⟩

theorem Meets.ilookup (h : Meets nodes orWildcard i words k br) (hsegs : [] ∉ words)
    (parent : Option Nat) : ∃ cleaned, ilookup nodes i parent words = .error cleaned := by
  induction h generalizing parent with
  | @here i j word w words _ hwords hw hbr hj htombed =>
    refine ilookup_error_of_branch hw (fun hnil => hsegs (by simp [hnil])) hwords hbr hj ?_
    cases words with
    | nil => exact absurd rfl hwords
    | cons next words =>
      exact ⟨clean nodes (some i), by simp only [Trie.ilookup, tombed_iff.mp htombed]⟩
  | @deeper i _ _ _ _ _ _ _ hw hbr hj h ih =>
    refine ilookup_error_of_branch hw (fun hnil => hsegs (by simp [hnil])) h.words_ne_nil hbr hj ?_
    exact ih (fun hmem => hsegs (mem_cons_of_mem _ hmem)) (some i)

end Lookups

section Rooted
variable {m : MainNode σ}

structure Rooted (nodes : Nodes σ) : Prop where
  lt : root < nodes.length
  live : nodes.tombed root = false

section
variable (h : Rooted nodes)
include h

theorem Rooted.set (hm : i = root → m ≠ .tNode) : Rooted (nodes.set i m) := by
  refine ⟨by rw [length_set]; exact h.lt, ?_⟩
  unfold Nodes.tombed
  by_cases hi : i = root
  · subst hi
    rw [main_set_self h.lt]
    cases m with
    | cNode cn => rfl
    | tNode => exact absurd rfl (hm rfl)
  · rw [main_set_ne (Ne.symm hi)]
    exact h.live

theorem Rooted.grow (hgrows : nodes <+: nodes') : Rooted nodes' := by
  obtain ⟨more, rfl⟩ := hgrows
  refine ⟨by rw [length_append]; exact Nat.lt_add_right _ h.lt, ?_⟩
  unfold Nodes.tombed
  rw [main_append h.lt]
  exact h.live

theorem Rooted.write (hgrows : nodes <+: nodes') (i : Nat) (cn : CNode σ) :
    Rooted (nodes'.set i (.cNode cn)) :=
  (h.grow hgrows).set fun _ => by simp

theorem Rooted.clean (p : Option Nat) : Rooted (clean nodes p) := by
  refine ⟨?_, by rw [tombed_clean]; exact h.live⟩
  rw [(quiet_clean nodes p).length]
  exact h.lt

omit h in
theorem toContracted_root (cn : CNode σ) : toContracted cn root ≠ .tNode := by
  simp [toContracted]

theorem Rooted.contracted (cn : CNode σ) (i : Nat) : Rooted (nodes.set i (toContracted cn i)) :=
  h.set fun hi => hi ▸ toContracted_root cn

theorem Rooted.cleanParent (i parent : Nat) (pp : Option Nat) (w : Segment) :
    Rooted (cleanParent nodes i parent pp w) := by
  unfold Trie.cleanParent
  split
  · exact h
  · split
    · exact h
    · split_ifs
      · exact h
      · unfold contract
        dsimp only
        split
        · exact h.contracted _ parent
        · split_ifs
          · split
            · exact h
            · split
              · exact h
              · exact h.set fun _ => by simp
          · exact h.contracted _ parent
      · exact h

end

variable [DecidableEq σ]

omit [DecidableEq σ] in
theorem Inserted.rooted (hroot : Rooted nodes) (h : Inserted nodes sub j parent word rest done) :
    Rooted done.1 := by
  cases h with
  | tombed hmain => exact hroot.clean parent
  | present hmain hbr hmem => exact hroot
  | last hmain => exact hroot.write prefix_rfl j _
  | below hmain hrest hnone => exact hroot.write (grown_newCNode nodes hrest sub).grows j _

theorem Removed.rooted (hroot : Rooted nodes) (h : Removed nodes sub j above pp word rest done) :
    Rooted done.1 := by
  cases h with
  | tombed hmain => exact hroot.clean _
  | absent hmain hnot => exact hroot
  | kept hmain hbr hmem hlive => exact hroot.contracted _ j
  | emptied hmain hbr hmem htombed => exact (hroot.contracted _ j).cleanParent ..

theorem Rooted.iinsert (h : Rooted nodes) (sub : σ) (hwords : words ≠ []) :
    Rooted (iinsert nodes sub root none words).1 := by
  obtain ⟨_, _, _, _, _, _, -, -, hinserted⟩ := exists_inserted nodes sub hwords
  exact hinserted.rooted h

theorem Rooted.iremove (h : Rooted nodes) (sub : σ) (hwords : words ≠ []) :
    Rooted (iremove nodes sub root none none words).1 := by
  obtain ⟨_, _, _, _, _, _, -, -, hremoved⟩ := exists_removed nodes sub hwords
  exact hremoved.rooted h

end Rooted

section Loops
variable {attempt : Nodes σ → Nodes σ × Bool}

def attempted (attempt : Nodes σ → Nodes σ × Bool) (nodes : Nodes σ) :
    Except (Nodes σ) (Nodes σ) :=
  match attempt nodes with
  | (nodes, true) => .ok nodes
  | (nodes, false) => .error nodes

theorem retry_eq_loop (attempt : Nodes σ → Nodes σ × Bool) (n : Nat) (nodes : Nodes σ) :
    retry attempt n nodes = Retry.loop (attempted attempt) n nodes := by
  induction n generalizing nodes with
  | zero => rfl
  | succ n ih =>
    unfold retry Retry.loop attempted
    cases hattempt : attempt nodes with
    | mk nodes' done =>
      cases done with
      | true => rfl
      | false => exact ih nodes'

theorem attempted_error :
    attempted attempt nodes = .error nodes' ↔ attempt nodes = (nodes', false) := by
  unfold attempted
  rcases attempt nodes with ⟨after, _ | _⟩ <;> simp

theorem attempted_ok : attempted attempt nodes = .ok nodes' ↔ attempt nodes = (nodes', true) := by
  unfold attempted
  rcases attempt nodes with ⟨after, _ | _⟩ <;> simp

theorem loop_ends_iff {ρ : Type} {attempt : Nodes σ → Except (Nodes σ) ρ}
    (hmeets : ∀ nodes k br, Meets nodes follows root words k br →
      ∃ cleaned, attempt nodes = .error cleaned)
    (hfails : ∀ nodes cleaned, Rooted nodes → attempt nodes = .error cleaned →
      ∃ k br, Meets nodes follows root words k br ∧ cleaned = clean nodes (some k))
    (hroot : Rooted nodes) :
    (∃ n, Retry.loop attempt n nodes ≠ none) ↔ ¬ Stuck nodes follows root words := by
  have hgood : ∀ nodes cleaned, Rooted nodes → attempt nodes = .error cleaned →
      Rooted cleaned := by
    intro nodes cleaned hroot herror
    obtain ⟨k, br, -, rfl⟩ := hfails nodes cleaned hroot herror
    exact hroot.clean (some k)
  have hstuck : ∀ nodes, Rooted nodes → Stuck nodes follows root words →
      ∃ cleaned, attempt nodes = .error cleaned ∧ Stuck cleaned follows root words := by
    intro nodes hroot hstuck
    obtain ⟨k, br, hmeet, -⟩ := id hstuck
    obtain ⟨cleaned, herror⟩ := hmeets nodes k br hmeet
    obtain ⟨l, -, -, rfl⟩ := hfails nodes cleaned hroot herror
    exact ⟨_, herror, stuck_clean hstuck (some l)⟩
  have hlower : ∀ nodes cleaned, Rooted nodes → ¬ Stuck nodes follows root words →
      attempt nodes = .error cleaned →
      ¬ Stuck cleaned follows root words ∧ branchCount cleaned < branchCount nodes := by
    intro nodes cleaned hroot hnot herror
    obtain ⟨k, br, hmeet, rfl⟩ := hfails nodes cleaned hroot herror
    have hsubs : br.subs = [] := by
      by_contra hne
      exact hnot ⟨k, br, hmeet, hne⟩
    exact ⟨fun hstuck => hnot (stuck_of_clean hstuck), hmeet.branchCount_lt hsubs⟩
  exact Retry.ends_iff hgood hstuck hlower hroot

theorem Rooted.retry {n : Nat} (hattempt : ∀ nodes, Rooted nodes → Rooted (attempt nodes).1)
    (hroot : Rooted nodes) (h : retry attempt n nodes = some nodes') : Rooted nodes' := by
  rw [retry_eq_loop] at h
  refine Retry.loop_invariant ?_ ?_ hroot h
  · intro nodes after hroot herror
    have hafter := hattempt nodes hroot
    rwa [attempted_error.mp herror] at hafter
  · intro nodes after hroot hok
    have hafter := hattempt nodes hroot
    rwa [attempted_ok.mp hok] at hafter

variable [DecidableEq σ] {comparable : σ → Bool}

def looked (words : List Segment) (nodes : Nodes σ) : Except (Nodes σ) (Nodes σ × List σ) :=
  (ilookup nodes root none words).map fun subs => (nodes, subs)

theorem lookupAttempts_eq_loop (words : List Segment) (n : Nat) (nodes : Nodes σ) :
    lookupAttempts words n nodes = Retry.loop (looked words) n nodes := by
  induction n generalizing nodes with
  | zero => rfl
  | succ n ih =>
    unfold lookupAttempts Retry.loop looked
    cases ilookup nodes root none words with
    | ok subs => rfl
    | error cleaned => exact ih cleaned

theorem looked_error : looked words nodes = .error nodes' ↔
    ilookup nodes root none words = .error nodes' := by
  unfold looked
  cases ilookup nodes root none words <;> simp [Except.map]

theorem looked_ok {found : Nodes σ × List σ} (h : looked words nodes = .ok found) :
    nodes = found.1 := by
  unfold looked at h
  cases hattempt : ilookup nodes root none words with
  | ok subs =>
    rw [hattempt] at h
    obtain rfl := Except.ok.inj h
    rfl
  | error cleaned =>
    rw [hattempt] at h
    cases h

theorem Rooted.step {a : Action σ} (hroot : Rooted nodes)
    (hstep : step comparable nodes a = some nodes') : Rooted nodes' := by
  cases a with
  | subscribe topic sub n =>
    simp only [Trie.step, Trie.subscribe] at hstep
    split_ifs at hstep
    · exact Option.some.inj hstep ▸ hroot
    · exact Option.some.inj hstep ▸ hroot
    · simp only [Option.map_map, Option.map_eq_some_iff] at hstep
      obtain ⟨done, hretry, rfl⟩ := hstep
      exact Rooted.retry (fun nodes h => h.iinsert sub (splitSegments_ne_nil topic)) hroot hretry
  | unsubscribe sub n =>
    cases sub with
    | none => exact Option.some.inj hstep ▸ hroot
    | some sub =>
      exact Rooted.retry (fun nodes h => h.iremove _ (splitSegments_ne_nil sub.topic)) hroot hstep
  | lookup topic n =>
    simp only [Trie.step, Trie.lookup, Option.map_eq_some_iff] at hstep
    obtain ⟨⟨after, subs⟩, hlookup, rfl⟩ := hstep
    split_ifs at hlookup
    · exact (Prod.mk.inj (Option.some.inj hlookup)).1 ▸ hroot
    · rw [lookupAttempts_eq_loop] at hlookup
      have hdone : ∀ (nodes : Nodes σ) (found : Nodes σ × List σ), Rooted nodes →
          looked (splitSegments topic) nodes = .ok found → Rooted found.1 :=
        fun nodes found hroot hok => looked_ok hok ▸ hroot
      refine Retry.loop_invariant ?_ hdone hroot hlookup
      intro nodes cleaned hroot herror
      obtain ⟨k, br, -, rfl⟩ := lookup_fails hroot.live (looked_error.mp herror)
      exact hroot.clean (some k)

omit [DecidableEq σ] in
theorem rooted_start : Rooted (newCSTrieMatcher : Nodes σ) :=
  ⟨Nat.zero_lt_one, rfl⟩

theorem rooted_run {as : List (Action σ)}
    (hrun : run comparable newCSTrieMatcher as = some nodes) : Rooted nodes :=
  Transition.invariant (P := Rooted) rooted_start (fun _ _ _ h hstep => h.step hstep) hrun

theorem retry_iinsert_ends_iff (hroot : Rooted nodes) (hwords : words ≠ []) (sub : σ) :
    (∃ n, retry (fun nodes => iinsert nodes sub root none words) n nodes ≠ none) ↔
      ¬ Stuck nodes exactly root words := by
  simp only [retry_eq_loop]
  refine loop_ends_iff ?_ ?_ hroot
  · intro nodes k br hmeets
    exact ⟨_, attempted_error.mpr (hmeets.iinsert sub)⟩
  · intro nodes cleaned hroot herror
    exact insert_fails hroot.live hwords (attempted_error.mp herror)

theorem retry_iremove_ends_iff (hroot : Rooted nodes) (hwords : words ≠ []) (sub : σ) :
    (∃ n, retry (fun nodes => iremove nodes sub root none none words) n nodes ≠ none) ↔
      ¬ Stuck nodes exactly root words := by
  simp only [retry_eq_loop]
  refine loop_ends_iff ?_ ?_ hroot
  · intro nodes k br hmeets
    exact ⟨_, attempted_error.mpr (hmeets.iremove sub)⟩
  · intro nodes cleaned hroot herror
    exact remove_fails hroot.live hwords (attempted_error.mp herror)

theorem lookupAttempts_ends_iff (hroot : Rooted nodes) (hsegs : [] ∉ words) :
    (∃ n, lookupAttempts words n nodes ≠ none) ↔ ¬ Stuck nodes orWildcard root words := by
  simp only [lookupAttempts_eq_loop]
  refine loop_ends_iff ?_ ?_ hroot
  · intro nodes k br hmeets
    obtain ⟨cleaned, herror⟩ := hmeets.ilookup hsegs none
    exact ⟨cleaned, looked_error.mpr herror⟩
  · intro nodes cleaned hroot herror
    exact lookup_fails hroot.live (looked_error.mp herror)

end Loops

/-- After every history of calls, a call made alone returns unless its walk meets a T-node below a
branch that has subscribers; then it never does. A refused `Subscribe` and the lookup of a topic
with an empty segment return without a walk. -/
theorem matcher_progress_iff [DecidableEq σ] {comparable : σ → Bool} {as : List (Action σ)}
    {nodes : Nodes σ} (hrun : run comparable newCSTrieMatcher as = some nodes) (topic : String)
    (sub : σ) :
    ((∃ n, subscribe comparable n nodes topic sub ≠ none) ↔
      comparable sub = false ∨ validTopic topic = false ∨
        ¬ Stuck nodes exactly root (splitSegments topic)) ∧
    ((∃ n, unsubscribe n nodes (some ⟨topic, sub⟩) ≠ none) ↔
      ¬ Stuck nodes exactly root (splitSegments topic)) ∧
    ((∃ n, lookup n nodes topic ≠ none) ↔
      [] ∈ splitSegments topic ∨ ¬ Stuck nodes orWildcard root (splitSegments topic)) := by
  have hroot := rooted_run hrun
  have hwords := splitSegments_ne_nil topic
  refine ⟨?_, retry_iremove_ends_iff hroot hwords sub, ?_⟩
  · unfold subscribe
    cases hcomparable : comparable sub with
    | false => simp
    | true =>
      cases hvalid : validTopic topic with
      | false => simp
      | true => simpa using retry_iinsert_ends_iff hroot hwords sub
  · unfold lookup
    by_cases hempty : [] ∈ splitSegments topic
    · simp [hempty]
    · simpa [hempty] using lookupAttempts_ends_iff hroot hempty

theorem matcher_progress_mixed :
    ∃ nodes, run always newCSTrieMatcher mixed = some nodes ∧
      subscribe always 1 nodes "a.c" 9 ≠ none ∧
      ((∃ n, subscribe always n nodes "a.c" 9 ≠ none) ↔
        always 9 = false ∨ validTopic "a.c" = false ∨
          ¬ Stuck nodes exactly root (splitSegments "a.c")) ∧
      ((∃ n, unsubscribe n nodes (some ⟨"a.c", 9⟩) ≠ none) ↔
        ¬ Stuck nodes exactly root (splitSegments "a.c")) ∧
      ((∃ n, lookup n nodes "a.c" ≠ none) ↔
        [] ∈ splitSegments "a.c" ∨ ¬ Stuck nodes orWildcard root (splitSegments "a.c")) :=
  ⟨_, rfl, by decide, matcher_progress_iff (rfl : run always newCSTrieMatcher mixed = _) "a.c" 9⟩

def leftBelow : List (Action Nat) :=
  [.subscribe "a" 7 1, .subscribe "a.b" 7 1, .unsubscribe (some ⟨"a.b", 7⟩) 1]

/-- With one subscriber of `a` that has left `a.b`, the branch of `a` keeps the T-node below it, and
no call for `a.c` returns. -/
theorem matcher_progress_stuck :
    ∃ nodes, run always newCSTrieMatcher leftBelow = some nodes ∧
      (∀ n, subscribe always n nodes "a.c" 7 = none) ∧
      (∀ n, unsubscribe n nodes (some ⟨"a.c", 7⟩) = none) ∧ ∀ n, lookup n nodes "a.c" = none := by
  refine ⟨_, rfl, fun n => ?_, fun n => ?_, fun n => ?_⟩
  · refine map_eq_none_iff.mpr ?_
    induction n with
    | zero => rfl
    | succ n ih => exact ih
  · change retry _ n _ = none
    induction n with
    | zero => rfl
    | succ n ih => exact ih
  · change lookupAttempts (splitSegments "a.c") n _ = none
    induction n with
    | zero => rfl
    | succ n ih => exact ih

end MessageLoop.Trie
