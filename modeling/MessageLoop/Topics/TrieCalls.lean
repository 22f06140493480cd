import MessageLoop.Topics.TrieSwaps

/-!
What a call of the trie matcher that is under way knows: a C-node it has loaded is there unless the
swap count has changed, branches it has dropped lead to T-nodes, an I-node that a `Subscribe` stands
at is still in its place. The swaps of other calls do not take this away.
-/

namespace MessageLoop.Trie.Concurrent

open Topics LinkedTrie

variable {σ : Type} {mem : Memory σ} {nodes : Nodes σ} {loc : Nat → List Segment} {i j k : Nat}
variable {cn todo left : CNode σ} {key w : Segment} {br : Branch σ}

section Knowledge

/-- The C-node that the call has loaded, unless something has been swapped in since. -/
structure Knows (mem : Memory σ) (i seen : Nat) (cn : CNode σ) : Prop where
  lt : i < mem.nodes.length
  le : seen ≤ mem.swaps i
  main : mem.swaps i = seen → mem.nodes.main i = .cNode cn

structure Compressing (nodes : Nodes σ) (cn todo left : CNode σ) : Prop where
  bound : ∀ {w br k}, cn.lookup w = some br → br.iNode = some k → k < nodes.length
  pending : ∀ {w br}, todo.lookup w = some br → cn.lookup w = some br ∧ left.lookup w = none
  stays : ∀ {w br}, left.lookup w = some br → cn.lookup w = some br
  pruned : ∀ {w br}, cn.lookup w = some br → todo.lookup w = none → left.lookup w = none →
    prunable nodes br = true

theorem knows_of_load (h : mem.nodes.main i = .cNode cn) : Knows mem i (mem.swaps i) cn :=
  ⟨lt_of_main h, le_refl _, fun _ => h⟩

theorem compressing_start
    (hbound : ∀ {w br k}, cn.lookup w = some br → br.iNode = some k → k < nodes.length) :
    Compressing nodes cn cn ∅ where
  bound := hbound
  pending := fun h => ⟨h, rfl⟩
  stays := nofun
  pruned := fun h hnone _ => by rw [h] at hnone; cases hnone

theorem bound_of_load (hloc : Located nodes.length loc (store nodes))
    (hmain : nodes.main i = .cNode cn) (hbr : cn.lookup w = some br) (hk : br.iNode = some k) :
    k < nodes.length :=
  hloc.bound (store_eq_some.mpr ⟨cn, br, hmain, hbr, rfl⟩) hk

theorem Compressing.next (h : Compressing nodes cn todo left) (hbr : todo.lookup key = some br) :
    Compressing nodes cn (todo.erase key)
      (if prunable nodes br then left else left.insert key br) := by
  obtain ⟨hcn, hnone⟩ := h.pending hbr
  refine ⟨h.bound, ?_, ?_, ?_⟩
  · intro w br' hw
    have hne : w ≠ key := by
      rintro rfl
      rw [AList.lookup_erase] at hw
      cases hw
    rw [AList.lookup_erase_ne hne] at hw
    obtain ⟨hcn', hnone'⟩ := h.pending hw
    refine ⟨hcn', ?_⟩
    split_ifs
    · exact hnone'
    · rw [AList.lookup_insert_ne hne]
      exact hnone'
  · intro w br' hw
    split_ifs at hw
    · exact h.stays hw
    · by_cases hne : w = key
      · subst hne
        rw [AList.lookup_insert] at hw
        exact Option.some.inj hw ▸ hcn
      · rw [AList.lookup_insert_ne hne] at hw
        exact h.stays hw
  · intro w br' hw htodo hleft
    by_cases hne : w = key
    · subst hne
      cases hcn.symm.trans hw
      by_contra hnot
      rw [if_neg hnot, AList.lookup_insert] at hleft
      cases hleft
    · rw [AList.lookup_erase_ne hne] at htodo
      refine h.pruned hw htodo ?_
      split_ifs at hleft
      · exact hleft
      · rw [AList.lookup_insert_ne hne] at hleft
        exact hleft

theorem lookup_of_entries_nil (h : cn.entries = []) (w : Segment) : cn.lookup w = none := by
  rw [show cn = ∅ from AList.ext h]
  rfl

theorem Compressing.trims (h : Compressing nodes cn todo left) (hdone : todo.entries = [])
    (cut : Option Nat) (w : Segment) (br : Branch σ) (hw : cn.lookup w = some br) :
    Trims nodes cut br (left.lookup w) := by
  cases hleft : left.lookup w with
  | some new =>
    obtain rfl := Option.some.inj ((h.stays hleft).symm.trans hw)
    exact ⟨fun x hx => ⟨new, rfl, hx⟩, fun c hc => .inl ⟨new, rfl, hc⟩⟩
  | none =>
    have hpruned := h.pruned hw (lookup_of_entries_nil hdone w) hleft
    have hsubs : br.subs = [] := by
      simp only [prunable, Bool.and_eq_true, List.isEmpty_iff] at hpruned
      exact hpruned.1
    refine ⟨fun x hx => ?_, fun c hc => .inr (.inl (tombed_of_prunable hpruned hc))⟩
    rw [hsubs] at hx
    cases hx

end Knowledge

section Calls

def Pc.insertsAt : Pc σ → Option Nat
  | .iinsert _ i _ _ => some i
  | .insertSwap _ i _ _ _ _ => some i
  | _ => none

structure Stands (nodes : Nodes σ) (loc : Nat → List Segment) (i : Nat) : Prop where
  lt : i < nodes.length
  linked : walk (store nodes) root (loc i) = some i ∨ nodes.tombed i = true

theorem Stands.walk (h : Stands nodes loc i) (hmain : nodes.main i = .cNode cn) :
    walk (store nodes) root (loc i) = some i := by
  refine h.linked.resolve_right fun htombed => ?_
  rw [tombed_iff, hmain] at htombed
  cases htombed

def Removing (op : Op σ) : Prop :=
  ∃ pair, op = .unsubscribe pair

def SiteOk (site : Site) : Prop :=
  site.parentsParent = none → site.parent = root

def Clears (cn cleared : CNode σ) (parent : Nat) : Prop :=
  ∃ key br, cn.lookup key = some br ∧ br.iNode = some parent ∧ ∀ w, cleared.lookup w =
    if w = key then (if br.subs = [] then none else some ⟨none, br.subs⟩) else cn.lookup w

section Clears
variable {cleared : CNode σ} {parent : Nat}

theorem Clears.trims (h : Clears cn cleared parent) (hcomp : Compressing nodes cleared todo left)
    (hdone : todo.entries = []) (hw : cn.lookup w = some br) :
    Trims nodes (some parent) br (left.lookup w) := by
  obtain ⟨key, old, hkey, hparent, hcleared⟩ := h
  have hlookup := hcleared w
  split_ifs at hlookup with hkw hsubs
  · subst hkw
    cases hkey.symm.trans hw
    refine ⟨fun x hx => ?_, fun c hc => .inr (.inr (hparent.symm.trans hc))⟩
    rw [hsubs] at hx
    cases hx
  · subst hkw
    cases hkey.symm.trans hw
    exact ⟨(hcomp.trims hdone (some parent) w _ hlookup).subs,
      fun c hc => .inr (.inr (hparent.symm.trans hc))⟩
  · exact hcomp.trims hdone (some parent) w br (hlookup.trans hw)

theorem Clears.child (h : Clears cn cleared parent) (hw : cleared.lookup w = some br)
    (hk : br.iNode = some k) : cn.lookup w = some br := by
  obtain ⟨key, old, -, -, hcleared⟩ := h
  rw [hcleared] at hw
  split_ifs at hw
  · cases hw
    cases hk
  · exact hw

end Clears

def PurposeOk (mem : Memory σ) (op : Op σ) (todo left : CNode σ) : Purpose → Prop
  | .clean i seen => ∃ cn, Knows mem i seen cn ∧ Compressing mem.nodes cn todo left
  | .contract site seen => Removing op ∧ SiteOk site ∧
      ∃ cn, Knows mem site.parent seen cn ∧ Compressing mem.nodes cn todo left
  | .clear site seen above seenAbove => Removing op ∧ SiteOk site ∧
      (∃ cn, Knows mem site.parent seen cn ∧ Compressing mem.nodes cn ∅ ∅) ∧
      ∃ cn cleared, Knows mem above seenAbove cn ∧ Clears cn cleared site.parent ∧
        Compressing mem.nodes cleared todo left

def TaskOk (nodes : Nodes σ) : Task → Prop
  | .ilookup i parent words => i < nodes.length ∧ words ≠ [] ∧ (parent = none → i = root)
  | .below i => i < nodes.length

def Covers (nodes : Nodes σ) (loc : Nat → List Segment) (p : List Segment) (x : σ) : Task → Prop
  | .ilookup i _ words => ∃ rest, p = loc i ++ rest ∧ matchPath rest words = true ∧
      x ∈ items (store nodes) i rest
  | .below i => p = loc i ++ [multiWildcard] ∧ x ∈ items (store nodes) i [multiWildcard]

def PcOk (mem : Memory σ) (loc : Nat → List Segment) (op : Op σ) : Pc σ → Prop
  | .iinsert sub i parent words => op = .subscribe (loc i ++ words, sub) ∧ words ≠ [] ∧
      Stands mem.nodes loc i ∧ (parent = none → i = root)
  | .insertSwap sub i seen cn word words => op = .subscribe (loc i ++ word :: words, sub) ∧
      Stands mem.nodes loc i ∧ Knows mem i seen cn ∧
      (words ≠ [] → (cn.lookup word).bind Branch.iNode = none)
  | .iremove sub i above parentsParent words => op = .unsubscribe (loc i ++ words, sub) ∧
      words ≠ [] ∧ i < mem.nodes.length ∧ (above = none → i = root) ∧
      ∀ parent prev, above = some (parent, prev) → parentsParent = none → parent = root
  | .removeSwap sub i seen cn above parentsParent word =>
      op = .unsubscribe (loc i ++ [word], sub) ∧ Knows mem i seen cn ∧
      (∃ br, cn.lookup word = some br) ∧
      ∀ parent prev, above = some (parent, prev) → parentsParent = none → parent = root
  | .removed site => Removing op ∧ SiteOk site
  | .cleanParent site => Removing op ∧ SiteOk site
  | .loadParent site _ => Removing op ∧ SiteOk site
  | .contractSwap site seen _ ncn => Removing op ∧ SiteOk site ∧
      (site.parent = root ∨ ncn.entries ≠ []) ∧
      ∃ cn, Knows mem site.parent seen cn ∧ Compressing mem.nodes cn ∅ ncn
  | .clean i => i ≠ none
  | .toCompressed purpose todo left => PurposeOk mem op todo left purpose
  | .ilookup tasks found => ∃ topic owed, op = .lookup topic owed ∧
      (∀ task ∈ tasks, TaskOk mem.nodes task) ∧
      ∀ p x, (p, x) ∈ owed → matchPath p (splitSegments topic) = true →
        x ∈ found ∨ ∃ task ∈ tasks, Covers mem.nodes loc p x task
  | .returned subs => ∀ topic owed, op = .lookup topic owed →
      ∀ p x, (p, x) ∈ owed → matchPath p (splitSegments topic) = true → x ∈ subs
  | .panicked => False

/-- What a call is about. A lookup under way is owed only pairs that are kept. -/
def OpOk (kept : List (Pair σ)) (c : Call σ) : Prop :=
  match c.op with
  | .subscribe (words, _) => words ≠ []
  | .unsubscribe (words, _) => words ≠ []
  | .lookup topic owed => [] ∉ splitSegments topic ∧
      (c.pc.finished = false → ∀ pair ∈ owed, pair ∈ kept)

end Calls

section Evolves

structure Evolves (mem mem' : Memory σ) (loc loc' : Nat → List Segment) (kept : List (Pair σ))
    (cut : Option Nat) : Prop where
  changes : ∃ j, Changes mem.nodes mem'.nodes loc loc' kept cut j
  swaps : ∀ k, mem.swaps k ≤ mem'.swaps k
  same : ∀ {k}, k < mem.nodes.length → mem'.swaps k = mem.swaps k →
    mem'.nodes.main k = mem.nodes.main k

variable {mem' : Memory σ} {loc' : Nat → List Segment} {kept : List (Pair σ)}
variable {cut : Option Nat} {seen : Nat}

theorem Evolves.refl (hloc : Located mem.nodes.length loc (store mem.nodes))
    (hroot : Rooted mem.nodes) : Evolves mem mem loc loc kept none :=
  ⟨⟨root, .refl hloc hroot⟩, fun _ => le_refl _, fun _ _ => rfl⟩

theorem evolves_swap (h : Changes mem.nodes nodes loc loc' kept cut j)
    (hseen : mem.swaps j = seen) :
    Evolves mem ⟨nodes, Function.update mem.swaps j (seen + 1)⟩ loc loc' kept cut := by
  refine ⟨⟨j, h⟩, fun k => ?_, fun {k} hk hswaps => ?_⟩
  · by_cases hkj : k = j
    · subst hkj
      simp [hseen]
    · simp [hkj]
  · have hkj : k ≠ j := by
      rintro rfl
      simp [hseen] at hswaps
    exact h.others hk hkj

variable (h : Evolves mem mem' loc loc' kept cut)
include h

theorem Evolves.length : mem.nodes.length ≤ mem'.nodes.length := by
  obtain ⟨j, hj⟩ := h.changes
  exact hj.length

theorem Evolves.labels (hi : i < mem.nodes.length) : loc' i = loc i := by
  obtain ⟨j, hj⟩ := h.changes
  exact hj.labels hi

theorem Evolves.prunable (hbound : ∀ k, br.iNode = some k → k < mem.nodes.length)
    (hbr : prunable mem.nodes br = true) : prunable mem'.nodes br = true := by
  obtain ⟨j, hj⟩ := h.changes
  simp only [Trie.prunable, Bool.and_eq_true] at hbr ⊢
  refine ⟨hbr.1, ?_⟩
  cases hk : br.iNode with
  | none => rfl
  | some k =>
    rw [hk, Option.all_some] at hbr
    exact hj.tombed (hbound k hk) hbr.2

theorem Knows.evolve (hknows : Knows mem i seen cn) : Knows mem' i seen cn := by
  refine ⟨hknows.lt.trans_le h.length, hknows.le.trans (h.swaps i), fun hseen => ?_⟩
  have hswaps : mem.swaps i = seen := by
    have hle := h.swaps i
    have hle' := hknows.le
    omega
  rw [h.same hknows.lt (hseen.trans hswaps.symm)]
  exact hknows.main hswaps

theorem Compressing.evolve (hcomp : Compressing mem.nodes cn todo left) :
    Compressing mem'.nodes cn todo left where
  bound := fun hw hk => (hcomp.bound hw hk).trans_le h.length
  pending := hcomp.pending
  stays := hcomp.stays
  pruned := fun hw htodo hleft => h.prunable (fun _ hk => hcomp.bound hw hk)
    (hcomp.pruned hw htodo hleft)

theorem Stands.evolve (hstands : Stands mem.nodes loc i) (hcut : cut ≠ some i) :
    Stands mem'.nodes loc' i := by
  obtain ⟨j, hj⟩ := h.changes
  refine ⟨hstands.lt.trans_le h.length, ?_⟩
  rw [h.labels hstands.lt]
  rcases hstands.linked with hlinked | htombed
  · exact hj.linked hstands.lt hcut hlinked
  · exact .inr (hj.tombed hstands.lt htombed)

theorem TaskOk.evolve {task : Task} (htask : TaskOk mem.nodes task) : TaskOk mem'.nodes task := by
  cases task with
  | ilookup i parent words => exact ⟨htask.1.trans_le h.length, htask.2⟩
  | below i => exact Nat.lt_of_lt_of_le htask h.length

theorem Covers.evolve {p : List Segment} {x : σ} {task : Task} (htask : TaskOk mem.nodes task)
    (hkept : (p, x) ∈ kept) (hcovers : Covers mem.nodes loc p x task) :
    Covers mem'.nodes loc' p x task := by
  obtain ⟨j, hj⟩ := h.changes
  cases task with
  | ilookup i parent words =>
    obtain ⟨rest, rfl, hmatch, hx⟩ := hcovers
    exact ⟨rest, by rw [h.labels htask.1], hmatch, hj.items htask.1 hkept hx⟩
  | below i =>
    obtain ⟨rfl, hx⟩ := hcovers
    exact ⟨by rw [h.labels htask], hj.items htask hkept hx⟩

theorem PurposeOk.evolve {op : Op σ} {purpose : Purpose}
    (hok : PurposeOk mem op todo left purpose) : PurposeOk mem' op todo left purpose := by
  cases purpose with
  | clean i seen =>
    obtain ⟨cn, hknows, hcomp⟩ := hok
    exact ⟨cn, hknows.evolve h, hcomp.evolve h⟩
  | contract site seen =>
    obtain ⟨hop, hsite, cn, hknows, hcomp⟩ := hok
    exact ⟨hop, hsite, cn, hknows.evolve h, hcomp.evolve h⟩
  | clear site seen above seenAbove =>
    obtain ⟨hop, hsite, ⟨pcn, hknows, hcomp⟩, cn, cleared, hknows', hclears, hcomp'⟩ := hok
    exact ⟨hop, hsite, ⟨pcn, hknows.evolve h, hcomp.evolve h⟩, cn, cleared, hknows'.evolve h,
      hclears, hcomp'.evolve h⟩

theorem PcOk.evolve {op : Op σ} {pc : Pc σ} (hcut : ∀ i, pc.insertsAt = some i → cut ≠ some i)
    (howed : pc.finished = false → ∀ topic owed, op = .lookup topic owed →
      ∀ pair ∈ owed, pair ∈ kept) (hok : PcOk mem loc op pc) : PcOk mem' loc' op pc := by
  cases pc with
  | iinsert sub i parent words =>
    obtain ⟨hop, hwords, hstands, hparent⟩ := hok
    exact ⟨by rw [h.labels hstands.lt]; exact hop, hwords, hstands.evolve h (hcut i rfl), hparent⟩
  | insertSwap sub i seen cn word words =>
    obtain ⟨hop, hstands, hknows, hnone⟩ := hok
    exact ⟨by rw [h.labels hstands.lt]; exact hop, hstands.evolve h (hcut i rfl), hknows.evolve h,
      hnone⟩
  | iremove sub i above parentsParent words =>
    obtain ⟨hop, hwords, hlt, habove⟩ := hok
    exact ⟨by rw [h.labels hlt]; exact hop, hwords, hlt.trans_le h.length, habove⟩
  | removeSwap sub i seen cn above parentsParent word =>
    obtain ⟨hop, hknows, hrest⟩ := hok
    exact ⟨by rw [h.labels hknows.lt]; exact hop, hknows.evolve h, hrest⟩
  | removed site | cleanParent site | loadParent site tombed | clean i | returned subs
  | panicked => exact hok
  | contractSwap site seen loaded ncn =>
    obtain ⟨hop, hsite, hlive, cn, hknows, hcomp⟩ := hok
    exact ⟨hop, hsite, hlive, cn, hknows.evolve h, hcomp.evolve h⟩
  | toCompressed purpose todo left => exact PurposeOk.evolve h hok
  | ilookup tasks found =>
    obtain ⟨topic, owed, hop, htasks, hcovers⟩ := hok
    refine ⟨topic, owed, hop, fun task htask => (htasks task htask).evolve h, ?_⟩
    intro p x hpair hmatch
    refine (hcovers p x hpair hmatch).imp id ?_
    rintro ⟨task, htask, hcover⟩
    exact ⟨task, htask, hcover.evolve h (htasks task htask) (howed rfl topic owed hop _ hpair)⟩

end Evolves

end MessageLoop.Trie.Concurrent
