import MessageLoop.Topics.TrieCalls

/-!
What overlapping calls of the trie matcher keep: no call comes upon a missing C-node, and a
subscription that nobody takes back is found by every lookup.

Two swaps of `contract` are not safe by themselves. The one of the parent is made on whatever is
there, and the one above the parent takes no notice of the parent, nor of a `Subscribe` that has
come to it. The result is about runs in which they are not disturbed.
-/

namespace MessageLoop.Trie.Concurrent

open Topics LinkedTrie List

variable {σ : Type} {s t : State σ} {loc : Nat → List Segment} {c : Call σ} {mem : Memory σ}
variable {op : Op σ} {pc : Pc σ} {key word : Segment} {words : List Segment} {i seen : Nat}
variable {cn : CNode σ} {parent : Option Nat}

section Condition

def hasBranchTo (nodes : Nodes σ) (i j : Nat) : Bool :=
  (nodes.main i).branches.entries.any fun e => e.2.iNode = some j

/-- When `contract` loads the parent's parent, the branch to the parent that the call has come along
is still there. When it swaps the parent or the parent's parent, the parent is as `cleanParent` has
loaded it; in the second case no `Subscribe` stands at the parent. -/
def Calm (s : State σ) : Pc σ → Prop
  | .toCompressed (.contract site _) todo left => todo.entries = [] → left.entries = [] →
      site.parentsParent.all (hasBranchTo s.mem.nodes · site.parent) = true
  | .contractSwap site seen loaded _ => s.mem.swaps site.parent = loaded → loaded = seen
  | .toCompressed (.clear site seen above seenAbove) todo _ => todo.entries = [] →
      s.mem.swaps above = seenAbove → s.mem.swaps site.parent = seen ∧
        ∀ c ∈ s.calls, c.pc.insertsAt ≠ some site.parent
  | _ => True

def Undisturbed (s : State σ) : Action σ → Prop
  | .advance k _ => ∀ c ∈ s.calls[k]?, Calm s c.pc
  | _ => True

instance decidableCalm (s : State σ) : (pc : Pc σ) → Decidable (Calm s pc)
  | .toCompressed (.contract ..) .. => inferInstanceAs (Decidable (_ = [] → _ = [] → _ = true))
  | .toCompressed (.clear ..) .. =>
    inferInstanceAs (Decidable (_ = [] → _ → _ ∧ ∀ c ∈ s.calls, c.pc.insertsAt ≠ _))
  | .contractSwap .. => inferInstanceAs (Decidable (_ → _))
  | .toCompressed (.clean ..) .. | .iinsert .. | .insertSwap .. | .iremove .. | .removeSwap ..
  | .removed .. | .cleanParent .. | .loadParent .. | .clean .. | .ilookup .. | .returned ..
  | .panicked => isTrue trivial

instance decidableUndisturbed (s : State σ) : (a : Action σ) → Decidable (Undisturbed s a)
  | .advance k _ => inferInstanceAs (Decidable (∀ c ∈ s.calls[k]?, Calm s c.pc))
  | .subscribe .. | .unsubscribe .. | .lookup .. => isTrue trivial

end Condition

section Step
variable [DecidableEq σ]

structure Sound (s : State σ) (loc : Nat → List Segment) : Prop where
  label : loc root = []
  located : Located s.mem.nodes.length loc (store s.mem.nodes)
  rooted : Rooted s.mem.nodes
  kept : ∀ pair ∈ s.kept, pair.2 ∈ subscribersAt s.mem.nodes pair.1
  free : ∀ pair ∈ s.kept, ∀ c ∈ s.calls, c.unsubscribes pair = false
  ops : ∀ c ∈ s.calls, OpOk s.kept c
  pcs : ∀ c ∈ s.calls, PcOk s.mem loc c.op c.pc

def Fine (s : State σ) (loc : Nat → List Segment) (c : Call σ) (mem : Memory σ) (pc : Pc σ) :
    Prop :=
  ∃ loc' cut, Evolves s.mem mem loc loc' s.kept cut ∧
    (∀ other ∈ s.calls, ∀ i, other.pc.insertsAt = some i → cut ≠ some i) ∧
    PcOk mem loc' c.op pc ∧
    ∀ pair subs, c.op = .subscribe pair → pc = .returned subs →
      pair.2 ∈ subscribersAt mem.nodes pair.1

variable {loc' : Nat → List Segment}

theorem Sound.fine_load (h : Sound s loc) (hpc : PcOk s.mem loc c.op pc)
    (hreturn : ∀ pair subs, c.op = .subscribe pair → pc = .returned subs →
      pair.2 ∈ subscribersAt s.mem.nodes pair.1) : Fine s loc c s.mem pc :=
  ⟨loc, none, .refl h.located h.rooted, fun _ _ _ _ => by simp, hpc, hreturn⟩

theorem Sound.fine_goto (h : Sound s loc) (hpc : PcOk s.mem loc c.op pc)
    (hgoing : pc.finished = false) : Fine s loc c s.mem pc := by
  refine h.fine_load hpc ?_
  rintro pair subs - rfl
  cases hgoing

theorem Sound.ne_root (h : Sound s loc) (hmain : s.mem.nodes.main i = .tNode) :
    i ≠ root := by
  rintro rfl
  have hlive := h.rooted.live
  rw [tombed_iff.mpr hmain] at hlive
  cases hlive

omit [DecidableEq σ] in
theorem pcOk_returned (hop : ∀ topic owed, c.op ≠ .lookup topic owed) :
    PcOk mem loc c.op (.returned []) :=
  fun topic owed h => absurd h (hop topic owed)

omit [DecidableEq σ] in
theorem fine_returned {cut : Option Nat} (hop : Removing c.op)
    (hev : Evolves s.mem mem loc loc s.kept cut)
    (hcut : ∀ other ∈ s.calls, ∀ i, other.pc.insertsAt = some i → cut ≠ some i) :
    Fine s loc c mem (.returned []) := by
  obtain ⟨pair, hop⟩ := hop
  refine ⟨loc, cut, hev, hcut, pcOk_returned ?_, ?_⟩
  · intro topic owed hlookup
    cases hop.symm.trans hlookup
  · intro pair' subs hsub
    cases hop.symm.trans hsub

theorem Sound.fine_done (h : Sound s loc) (hop : Removing c.op) :
    Fine s loc c s.mem (.returned []) :=
  fine_returned hop (.refl h.located h.rooted) (fun _ _ _ _ => by simp)

theorem Evolves.kept (h : Sound s loc) {cut : Option Nat}
    (hev : Evolves s.mem mem loc loc' s.kept cut) :
    ∀ pair ∈ s.kept, pair.2 ∈ subscribersAt mem.nodes pair.1 := by
  intro pair hpair
  obtain ⟨j, hj⟩ := hev.changes
  refine hj.items h.rooted.lt ?_ (h.kept pair hpair)
  rw [h.label]
  exact hpair

omit [DecidableEq σ] in
theorem pcOk_start {kept : List (Pair σ)} (hlabel : loc root = []) (hroot : Rooted mem.nodes)
    (hkept : ∀ pair ∈ kept, pair.2 ∈ subscribersAt mem.nodes pair.1) (hpc : pc.finished = false)
    (hop : OpOk kept ⟨op, pc⟩) : PcOk mem loc op op.start := by
  cases op with
  | subscribe pair =>
    refine ⟨by rw [hlabel]; rfl, hop, ⟨hroot.lt, .inl ?_⟩, fun _ => rfl⟩
    rw [hlabel]
    rfl
  | unsubscribe pair =>
    exact ⟨by rw [hlabel]; rfl, hop, hroot.lt, fun _ => rfl, nofun⟩
  | lookup topic owed =>
    refine ⟨topic, owed, rfl, ?_, ?_⟩
    · intro task htask
      obtain rfl := mem_singleton.mp htask
      exact ⟨hroot.lt, splitSegments_ne_nil topic, fun _ => rfl⟩
    · intro p x hpair hmatch
      refine .inr ⟨_, mem_singleton_self _, p, by rw [hlabel]; rfl, hmatch, ?_⟩
      exact hkept _ (hop.2 hpc _ hpair)

theorem Sound.fine_restart (h : Sound s loc) (hc : c ∈ s.calls) (hpc : c.pc.finished = false)
    (hev : Evolves s.mem mem loc loc' s.kept none) : Fine s loc c mem c.op.start := by
  obtain ⟨j, hj⟩ := hev.changes
  refine ⟨loc', none, hev, fun _ _ _ _ => by simp, ?_, ?_⟩
  · refine pcOk_start ?_ hj.rooted (hev.kept h) hpc (h.ops c hc)
    rw [hev.labels h.rooted.lt, h.label]
  · intro pair subs hop hreturned
    rw [hop] at hreturned
    cases hreturned

section Updates
variable {sub : σ}
variable {parentsParent : Option Nat} {above : Option (Nat × Segment)}
variable (hs : Sound s loc)
include hs

theorem fine_iinsert (hok : PcOk s.mem loc c.op (.iinsert sub i parent words))
    (h : advance s.mem c.op.start key (.iinsert sub i parent words) = some (mem, pc)) :
    Fine s loc c mem pc := by
  obtain ⟨hop, hwords, hstands, hparent⟩ := hok
  cases words with
  | nil => exact absurd rfl hwords
  | cons word words =>
    rw [advance] at h
    split at h
    next hmain =>
      cases h
      exact hs.fine_goto (fun hnone => hs.ne_root hmain (hparent hnone)) rfl
    next cn hmain =>
      have hwalk := hstands.walk hmain
      have hswap (hnone : words ≠ [] → (cn.lookup word).bind Branch.iNode = none) :
          Fine s loc c s.mem (.insertSwap sub i (s.mem.swaps i) cn word words) :=
        hs.fine_goto ⟨hop, hstands, knows_of_load hmain, hnone⟩ rfl
      split at h
      next hbr =>
        cases h
        exact hswap fun _ => by rw [hbr]; rfl
      next br hbr =>
        split at h
        · split at h
          next j hj =>
            cases h
            have hl := store_eq_some.mpr ⟨cn, br, hmain, hbr, rfl⟩
            have hpath := hs.located.path hl hj
            refine hs.fine_goto ⟨?_, cons_ne_nil _ _, ⟨hs.located.bound hl hj, .inl ?_⟩,
              nofun⟩ rfl
            · rw [hop, hpath, append_assoc, singleton_append]
            · rw [hpath, walk_append, hwalk]
              change walk (store s.mem.nodes) i [word] = some j
              have hchild : br.link.child = some j := hj
              simp [walk, hl, hchild]
          next hj =>
            cases h
            exact hswap fun _ => by rw [hbr]; exact hj
        · split_ifs at h with hmem
          · cases h
            refine hs.fine_load (pcOk_returned fun _ _ h => ?_) ?_
            · cases hop.symm.trans h
            · intro pair subs hpair _
              obtain rfl := Op.subscribe.inj (hop.symm.trans hpair)
              change sub ∈ subscribersAt s.mem.nodes (loc i ++ [word])
              rw [subscribersAt_append _ _ hwalk hmain, hbr]
              exact hmem
          · cases h
            exact hswap fun hne => absurd rfl hne

theorem fine_insertSwap (hc : c ∈ s.calls) (hpc : c.pc.finished = false)
    (hok : PcOk s.mem loc c.op (.insertSwap sub i seen cn word words))
    (h : advance s.mem c.op.start key (.insertSwap sub i seen cn word words) = some (mem, pc)) :
    Fine s loc c mem pc := by
  obtain ⟨hop, hstands, hknows, hnone⟩ := hok
  rw [advance, Memory.swap] at h
  split_ifs at h with hseen
  · cases h
    have hmain := hknows.main hseen
    have hinserted := inserted_insertion hmain hnone sub
    obtain ⟨loc', hchanges⟩ : ∃ loc', Changes s.mem.nodes _ loc loc' s.kept none i :=
      changes_inserted hs.located hs.rooted hinserted rfl
    refine ⟨loc', none, evolves_swap hchanges hseen, fun _ _ _ _ => by simp,
      pcOk_returned fun _ _ h => ?_, ?_⟩
    · cases hop.symm.trans h
    · intro pair subs hpair _
      obtain rfl := Op.subscribe.inj (hop.symm.trans hpair)
      have hwalk := hstands.walk hmain
      rcases hinserted.adds ⟨hs.rooted.lt, loc, hs.located⟩ hwalk with ⟨hfalse, -⟩ | ⟨-, hadds⟩
      · cases hfalse
      · exact (hadds.mem _ _).mpr (.inr ⟨rfl, rfl⟩)
  · cases h
    exact hs.fine_restart hc hpc (.refl hs.located hs.rooted)

theorem fine_iremove (hok : PcOk s.mem loc c.op (.iremove sub i above parentsParent words))
    (h : advance s.mem c.op.start key (.iremove sub i above parentsParent words) = some (mem, pc)) :
    Fine s loc c mem pc := by
  obtain ⟨hop, hwords, hlt, hroot, hsite⟩ := hok
  have hreturned := hs.fine_done ⟨_, hop⟩
  cases words with
  | nil => exact absurd rfl hwords
  | cons word words =>
    rw [advance] at h
    split at h
    next hmain =>
      cases h
      refine hs.fine_goto (fun hnone => hs.ne_root hmain ?_) rfl
      exact hroot (Option.map_eq_none_iff.mp hnone)
    next cn hmain =>
      split at h
      · cases h
        exact hreturned
      next br hbr =>
        split at h
        · split at h
          next j hj =>
            cases h
            have hl := store_eq_some.mpr ⟨cn, br, hmain, hbr, rfl⟩
            refine hs.fine_goto ⟨?_, cons_ne_nil _ _, hs.located.bound hl hj,
              nofun, ?_⟩ rfl
            · rw [hop, hs.located.path hl hj, append_assoc, singleton_append]
            · intro parent prev hparent hnone
              obtain ⟨rfl, -⟩ := Prod.mk.inj (Option.some.inj hparent)
              exact hroot (Option.map_eq_none_iff.mp hnone)
          · cases h
            exact hreturned
        · split_ifs at h
          · cases h
            exact hs.fine_goto ⟨hop, knows_of_load hmain, ⟨br, hbr⟩, hsite⟩ rfl
          · cases h
            exact hreturned

theorem fine_removeSwap (hc : c ∈ s.calls) (hpc : c.pc.finished = false)
    (hok : PcOk s.mem loc c.op (.removeSwap sub i seen cn above parentsParent word))
    (h : advance s.mem c.op.start key (.removeSwap sub i seen cn above parentsParent word) =
      some (mem, pc)) : Fine s loc c mem pc := by
  obtain ⟨hop, hknows, ⟨br, hbr⟩, hsite⟩ := hok
  rw [advance, Memory.swap] at h
  split_ifs at h with hseen
  · have hmain := hknows.main hseen
    have hnot : (loc i ++ [word], sub) ∉ s.kept := by
      intro hkept
      have hfree := hs.free _ hkept c hc
      simp [Call.unsubscribes, hop, hpc] at hfree
    have hev := evolves_swap (changes_removed hs.located hs.rooted hmain hbr hnot) hseen
    cases above with
    | none =>
      cases h
      exact fine_returned ⟨_, hop⟩ hev (fun _ _ _ _ => by simp)
    | some above =>
      obtain ⟨parent, prev⟩ := above
      cases h
      exact ⟨loc, none, hev, fun _ _ _ _ => by simp, ⟨⟨_, hop⟩, hsite parent prev rfl⟩,
        nofun⟩
  · cases h
    exact hs.fine_restart hc hpc (.refl hs.located hs.rooted)

end Updates

section Contraction
variable {site : Site} {tombed : Bool} {loaded : Nat} {todo left ncn : CNode σ}
variable {purpose : Purpose}
variable (hs : Sound s loc)
include hs

theorem fine_loadParent (hok : PcOk s.mem loc c.op (.loadParent site tombed))
    (h : advance s.mem c.op.start key (.loadParent site tombed) = some (mem, pc)) :
    Fine s loc c mem pc := by
  obtain ⟨hop, hsite⟩ := hok
  have hreturned := hs.fine_done hop
  rw [advance] at h
  split at h
  · cases h
    exact hreturned
  next cn hmain =>
    split at h
    · cases h
      exact hreturned
    · split_ifs at h
      · cases h
        exact hreturned
      · cases h
        exact hs.fine_goto ⟨hop, hsite, cn, knows_of_load hmain,
          compressing_start (bound_of_load hs.located hmain)⟩ rfl
      · cases h
        exact hreturned

theorem fine_contractSwap (hok : PcOk s.mem loc c.op (.contractSwap site seen loaded ncn))
    (hcalm : Calm s (.contractSwap site seen loaded ncn))
    (h : advance s.mem c.op.start key (.contractSwap site seen loaded ncn) = some (mem, pc)) :
    Fine s loc c mem pc := by
  obtain ⟨hop, hsite, hlive, cn, hknows, hcomp⟩ := hok
  rw [advance, Memory.swap] at h
  split_ifs at h with hloaded
  · cases h
    -- The swap meets the C-node that was compressed.
    have hmain := hknows.main (hloaded.trans (hcalm hloaded))
    have hcontracted : toContracted ncn site.parent = .cNode ncn := by
      rw [toContracted, if_neg]
      rintro ⟨hne, hnil⟩
      exact hlive.elim hne fun h => h hnil
    rw [hcontracted]
    refine fine_returned hop (evolves_swap (changes_trim hs.located hs.rooted hmain
      (hcomp.trims rfl none) ?_ (fun c h => by cases h)) hloaded) (fun _ _ _ _ => by simp)
    exact fun w br c hw hc => ⟨br, hcomp.stays hw, hc⟩
  · cases h
    exact hs.fine_goto ⟨hop, hsite⟩ rfl

theorem fine_compressNext (hok : PcOk s.mem loc c.op (.toCompressed purpose todo left))
    (h : (compressNext s.mem.nodes purpose todo left key).map (s.mem, ·) = some (mem, pc)) :
    Fine s loc c mem pc := by
  simp only [compressNext, Option.map_map, Option.map_eq_some_iff] at h
  obtain ⟨br, hbr, hr⟩ := h
  cases hr
  refine hs.fine_goto ?_ rfl
  cases purpose with
  | clean i seen =>
    obtain ⟨cn, hknows, hcomp⟩ := hok
    exact ⟨cn, hknows, hcomp.next hbr⟩
  | contract site seen =>
    obtain ⟨hop, hsite, cn, hknows, hcomp⟩ := hok
    exact ⟨hop, hsite, cn, hknows, hcomp.next hbr⟩
  | clear site seen above seenAbove =>
    obtain ⟨hop, hsite, hparent, cn, cleared, hknows, hclears, hcomp⟩ := hok
    exact ⟨hop, hsite, hparent, cn, cleared, hknows, hclears, hcomp.next hbr⟩

theorem fine_compressed_clean (hc : c ∈ s.calls) (hpc : c.pc.finished = false)
    (hok : PurposeOk s.mem c.op todo left (.clean i seen)) (hdone : todo.entries = [])
    (h : compressed s.mem c.op.start left (.clean i seen) = (mem, pc)) : Fine s loc c mem pc := by
  obtain ⟨cn, hknows, hcomp⟩ := hok
  rw [compressed, Memory.swap] at h
  cases h
  split_ifs with hseen
  · refine hs.fine_restart hc hpc (evolves_swap (changes_trim hs.located hs.rooted
      (hknows.main hseen) (hcomp.trims hdone none) ?_ nofun) hseen)
    exact fun w br c hw hc => ⟨br, hcomp.stays hw, hc⟩
  · exact hs.fine_restart hc hpc (.refl hs.located hs.rooted)

theorem fine_compressed_contract (hok : PurposeOk s.mem c.op todo left (.contract site seen))
    (hdone : todo.entries = []) (hcalm : Calm s (.toCompressed (.contract site seen) todo left))
    (h : compressed s.mem c.op.start left (.contract site seen) = (mem, pc)) :
    Fine s loc c mem pc := by
  obtain ⟨hop, hsite, cn, hknows, hcomp⟩ := hok
  obtain rfl : todo = ∅ := AList.ext hdone
  rw [compressed] at h
  split at h
  next habove =>
    cases h
    exact hs.fine_goto ⟨hop, hsite, .inl (hsite habove), cn, hknows, hcomp⟩ rfl
  next above habove =>
    split_ifs at h with hnil
    · obtain rfl : left = ∅ := AList.ext hnil
      have hbranch := hcalm hdone hnil
      rw [habove, Option.all_some, hasBranchTo, any_eq_true] at hbranch
      obtain ⟨⟨key, br⟩, hmem, hchild⟩ := hbranch
      cases hmain : s.mem.nodes.main above with
      | tNode =>
        rw [hmain] at hmem
        cases hmem
      | cNode acn =>
        rw [hmain] at h hmem
        obtain ⟨e, hfind⟩ : ∃ e, acn.entries.find? (fun e => e.2.iNode = some site.parent) =
            some e := by
          rw [← Option.isSome_iff_exists, find?_isSome]
          exact ⟨⟨key, br⟩, hmem, hchild⟩
        obtain ⟨key, br⟩ := e
        dsimp only at h
        rw [hfind] at h
        cases h
        have hkey : acn.lookup key = some br :=
          AList.mem_lookup_iff.mpr (mem_of_find?_eq_some hfind)
        have hparent : br.iNode = some site.parent := by simpa using find?_some hfind
        have hclears : Clears acn _ site.parent := ⟨key, br, hkey, hparent, fun w => lookup_cleared⟩
        refine hs.fine_goto ⟨hop, hsite, ⟨cn, hknows, hcomp⟩, acn, _, knows_of_load hmain, hclears,
          compressing_start ?_⟩ rfl
        exact fun hw hk => bound_of_load hs.located hmain (hclears.child hw hk) hk
    · cases h
      exact hs.fine_goto ⟨hop, hsite, .inr hnil, cn, hknows, hcomp⟩ rfl

theorem fine_compressed_clear {above seenAbove : Nat}
    (hok : PurposeOk s.mem c.op todo left (.clear site seen above seenAbove))
    (hdone : todo.entries = [])
    (hcalm : Calm s (.toCompressed (.clear site seen above seenAbove) todo left))
    (h : compressed s.mem c.op.start left (.clear site seen above seenAbove) = (mem, pc)) :
    Fine s loc c mem pc := by
  obtain ⟨hop, hsite, ⟨pcn, hparent, hempty⟩, cn, cleared, hknows, hclears, hcomp⟩ := hok
  rw [compressed, Memory.swap] at h
  split_ifs at h with hseen
  · cases h
    obtain ⟨hsame, hnobody⟩ := hcalm hdone hseen
    -- What is cut off holds nothing, and no call is about to insert there.
    have hhollow : Hollow s.mem.nodes site.parent := by
      intro w br hw
      rw [hparent.main hsame] at hw
      exact hempty.pruned hw rfl rfl
    have hchanges : Changes s.mem.nodes _ loc loc s.kept (some site.parent) above :=
      changes_trim hs.located hs.rooted (hknows.main hseen)
        (fun w br hw => hclears.trims hcomp hdone hw)
        (fun w br k hw hk => ⟨br, hclears.child (hcomp.stays hw) hk, hk⟩)
        (fun k hk => Option.some.inj hk ▸ hhollow)
    refine fine_returned hop (evolves_swap hchanges hseen) ?_
    intro other hother i hi hcut
    exact hnobody other hother (hi.trans hcut.symm)
  · cases h
    exact hs.fine_goto ⟨hop, hsite⟩ rfl

theorem fine_toCompressed (hc : c ∈ s.calls) (hpc : c.pc.finished = false)
    (hok : PcOk s.mem loc c.op (.toCompressed purpose todo left))
    (hcalm : Calm s (.toCompressed purpose todo left))
    (h : advance s.mem c.op.start key (.toCompressed purpose todo left) = some (mem, pc)) :
    Fine s loc c mem pc := by
  rw [advance] at h
  split_ifs at h with hdone
  · cases purpose with
    | clean i seen => exact fine_compressed_clean hs hc hpc hok hdone (Option.some.inj h)
    | contract site seen => exact fine_compressed_contract hs hok hdone hcalm (Option.some.inj h)
    | clear site seen above seenAbove =>
      exact fine_compressed_clear hs hok hdone hcalm (Option.some.inj h)
  · exact fine_compressNext hs hok h

theorem fine_clean {i : Option Nat} (hc : c ∈ s.calls) (hpc : c.pc.finished = false)
    (hok : PcOk s.mem loc c.op (.clean i))
    (h : advance s.mem c.op.start key (.clean i) = some (mem, pc)) : Fine s loc c mem pc := by
  cases i with
  | none => exact absurd rfl hok
  | some i =>
    rw [advance] at h
    split at h
    · cases h
      exact hs.fine_restart hc hpc (.refl hs.located hs.rooted)
    next cn hmain =>
      cases h
      exact hs.fine_goto ⟨cn, knows_of_load hmain,
        compressing_start (bound_of_load hs.located hmain)⟩ rfl

theorem fine_removed (hok : PcOk s.mem loc c.op (.removed site))
    (h : advance s.mem c.op.start key (.removed site) = some (mem, pc)) : Fine s loc c mem pc := by
  rw [advance] at h
  split_ifs at h
  · cases h
    exact hs.fine_goto hok rfl
  · cases h
    exact hs.fine_done hok.1

end Contraction

section Lookups
variable {nodes : Nodes σ} {rest : List Segment}
variable {x : σ} {task : Task} {tasks : List Task} {found : List σ}

omit [DecidableEq σ] in
theorem taskOk_bLookup (hloc : Located nodes.length loc (store nodes))
    (hmain : nodes.main i = .cNode cn) (h : task ∈ (bLookup i words (cn.lookup word)).1) :
    TaskOk nodes task := by
  cases hbr : cn.lookup word with
  | none =>
    rw [hbr] at h
    cases h
  | some br =>
    rw [hbr] at h
    cases words with
    | nil =>
      obtain ⟨j, hj, rfl⟩ := mem_map.mp h
      exact bound_of_load hloc hmain hbr (Option.mem_toList.mp hj)
    | cons next words =>
      obtain ⟨j, hj, rfl⟩ := mem_map.mp h
      exact ⟨bound_of_load hloc hmain hbr (Option.mem_toList.mp hj), cons_ne_nil _ _,
        nofun⟩

omit [DecidableEq σ] in
theorem covers_bLookup (hloc : Located nodes.length loc (store nodes))
    (hmain : nodes.main i = .cNode cn) (hmatch : matchPath rest words = true)
    (hx : x ∈ items (store nodes) i (word :: rest)) :
    x ∈ (bLookup i words (cn.lookup word)).2 ∨
      ∃ task ∈ (bLookup i words (cn.lookup word)).1,
        Covers nodes loc (loc i ++ word :: rest) x task := by
  rw [items_cons, store_of_main hmain] at hx
  change x ∈ via (store nodes) ((cn.lookup word).map Branch.link) rest at hx
  cases hbr : cn.lookup word with
  | none =>
    rw [hbr] at hx
    cases hx
  | some br =>
    rw [hbr, Option.map_some] at hx
    have hpath {j} (hj : br.iNode = some j) : loc i ++ word :: rest = loc j ++ rest := by
      rw [hloc.path (store_eq_some.mpr ⟨cn, br, hmain, hbr, rfl⟩) hj, append_assoc,
        singleton_append]
    have hchild (hne : rest ≠ []) : ∃ j, br.iNode = some j ∧ x ∈ items (store nodes) j rest := by
      cases rest with
      | nil => exact absurd rfl hne
      | cons seg rest =>
        rw [via_cons] at hx
        cases hj : br.iNode with
        | none =>
          rw [Branch.link, hj] at hx
          cases hx
        | some j =>
          rw [Branch.link, hj] at hx
          exact ⟨j, rfl, hx⟩
    cases words with
    | nil =>
      obtain rfl | rfl := matchPath_nil_iff.mp hmatch
      · exact .inl hx
      · obtain ⟨j, hj, hx⟩ := hchild (cons_ne_nil _ _)
        exact .inr ⟨.below j, mem_map_of_mem (Option.mem_toList.mpr hj), hpath hj, hx⟩
    | cons next words =>
      have hne : rest ≠ [] := by
        rintro rfl
        simp [matchPath] at hmatch
      obtain ⟨j, hj, hx⟩ := hchild hne
      exact .inr ⟨.ilookup j (some i) (next :: words),
        mem_map_of_mem (Option.mem_toList.mpr hj), rest, hpath hj, hmatch, hx⟩

variable (hs : Sound s loc)
include hs

/-- A task is done when what it covers has been found or is covered by the tasks in its place. -/
theorem fine_task {new : List Task} {found' : List σ}
    (hok : PcOk s.mem loc c.op (.ilookup (task :: tasks) found)) (hfound : found ⊆ found')
    (hnew : ∀ task ∈ new, TaskOk s.mem.nodes task)
    (hcover : ∀ p x, Covers s.mem.nodes loc p x task →
      x ∈ found' ∨ ∃ task ∈ new, Covers s.mem.nodes loc p x task) :
    Fine s loc c s.mem (.ilookup (new ++ tasks) found') := by
  obtain ⟨topic, owed, hop, htasks, hcovers⟩ := hok
  rw [forall_mem_cons] at htasks
  refine hs.fine_goto ⟨topic, owed, hop, forall_mem_append.mpr ⟨hnew, htasks.2⟩, ?_⟩ rfl
  intro p x hpair hmatch
  rcases hcovers p x hpair hmatch with hx | ⟨old, hold, hx⟩
  · exact .inl (hfound hx)
  · obtain rfl | hold := mem_cons.mp hold
    · refine (hcover p x hx).imp_right fun ⟨task, htask, hx⟩ => ?_
      exact ⟨task, mem_append_left _ htask, hx⟩
    · exact .inr ⟨old, mem_append_right _ hold, hx⟩

theorem fine_below (hok : PcOk s.mem loc c.op (.ilookup (.below i :: tasks) found))
    (h : advance s.mem c.op.start key (.ilookup (.below i :: tasks) found) = some (mem, pc)) :
    Fine s loc c mem pc := by
  rw [advance] at h
  split at h
  next hmain =>
    cases h
    refine fine_task hs hok (Subset.refl _) (forall_mem_nil _) fun p x hcover => ?_
    have hx := hcover.2
    rw [items_of_tombed (tombed_iff.mpr hmain)] at hx
    cases hx
  next cn hmain =>
    cases h
    refine fine_task hs hok (subset_append_left _ _) (forall_mem_nil _) fun p x hcover => .inl ?_
    have hx := hcover.2
    rw [items_cons, store_of_main hmain, via_map, if_pos rfl] at hx
    exact mem_append_right _ hx

theorem fine_ilookup
    (hok : PcOk s.mem loc c.op (.ilookup (.ilookup i parent (word :: words) :: tasks) found))
    (h : advance s.mem c.op.start key
      (.ilookup (.ilookup i parent (word :: words) :: tasks) found) = some (mem, pc)) :
    Fine s loc c mem pc := by
  rw [advance] at h
  split at h
  next hmain =>
    cases h
    obtain ⟨_, _, -, htasks, -⟩ := hok
    refine hs.fine_goto (fun hnone => hs.ne_root hmain ?_) rfl
    exact (htasks _ mem_cons_self).2.2 hnone
  next cn hmain =>
    cases h
    refine fine_task hs hok (fun x hx => by simp [hx]) ?_ fun p x hcover => ?_
    · exact forall_mem_append.mpr ⟨fun _ => taskOk_bLookup hs.located hmain,
        fun _ => taskOk_bLookup hs.located hmain⟩
    · simp only [mem_append]
      obtain ⟨path, rfl, hpath, hx⟩ := hcover
      obtain rfl | ⟨rest, rfl | rfl, hrest⟩ := matchPath_cons_iff.mp hpath
      · rw [items_cons, store_of_main hmain, via_map, if_pos rfl] at hx
        exact .inl (.inr hx)
      · rcases covers_bLookup hs.located hmain hrest hx with hx | ⟨task, htask, hcover⟩
        · exact .inl (.inl (.inl (.inr hx)))
        · exact .inr ⟨task, .inl htask, hcover⟩
      · rcases covers_bLookup hs.located hmain hrest hx with hx | ⟨task, htask, hcover⟩
        · exact .inl (.inl (.inr hx))
        · exact .inr ⟨task, .inr htask, hcover⟩

theorem fine_lookup (hok : PcOk s.mem loc c.op (.ilookup tasks found))
    (h : advance s.mem c.op.start key (.ilookup tasks found) = some (mem, pc)) :
    Fine s loc c mem pc := by
  cases tasks with
  | nil =>
    obtain ⟨topic, owed, hop, -, hcovers⟩ := hok
    rw [advance] at h
    cases h
    refine hs.fine_load ?_ ?_
    · intro topic' owed' hop' p x hpair hmatch
      obtain ⟨rfl, rfl⟩ := Op.lookup.inj (hop.symm.trans hop')
      refine mem_dedup.mpr ((hcovers p x hpair hmatch).resolve_right ?_)
      rintro ⟨task, htask, -⟩
      cases htask
    · intro pair subs hpair
      cases hop.symm.trans hpair
  | cons task tasks =>
    cases task with
    | below i => exact fine_below hs hok h
    | ilookup i parent words =>
      cases words with
      | nil => cases h
      | cons word words => exact fine_ilookup hs hok h

end Lookups

theorem fine_advance (hs : Sound s loc) (hc : c ∈ s.calls) (hcalm : Calm s c.pc)
    (h : advance s.mem c.op.start key c.pc = some (mem, pc)) : Fine s loc c mem pc := by
  have hok := hs.pcs c hc
  obtain ⟨op, now⟩ := c
  cases now with
  | iinsert sub i parent words => exact fine_iinsert hs hok h
  | insertSwap sub i seen cn word words => exact fine_insertSwap hs hc rfl hok h
  | iremove sub i above parentsParent words => exact fine_iremove hs hok h
  | removeSwap sub i seen cn above parentsParent word => exact fine_removeSwap hs hc rfl hok h
  | removed site => exact fine_removed hs hok h
  | cleanParent site =>
    cases h
    exact hs.fine_goto hok rfl
  | loadParent site tombed => exact fine_loadParent hs hok h
  | contractSwap site seen loaded ncn => exact fine_contractSwap hs hok hcalm h
  | clean i => exact fine_clean hs hc rfl hok h
  | toCompressed purpose todo left => exact fine_toCompressed hs hc rfl hok hcalm h
  | ilookup tasks found => exact fine_lookup hs hok h
  | returned subs => cases h
  | panicked => cases h

end Step

section Runs
variable {comparable : σ → Bool}
variable {pair : Pair σ}

theorem OpOk.mono {kept kept' : List (Pair σ)} (hsub : kept ⊆ kept')
    (hpc : pc.finished = false → c.pc.finished = false) (h : OpOk kept c) :
    OpOk kept' ⟨c.op, pc⟩ := by
  obtain ⟨op, now⟩ := c
  cases op with
  | subscribe other => exact h
  | unsubscribe other => exact h
  | lookup topic owed => exact ⟨h.1, fun hnow pair hpair => hsub (h.2 (hpc hnow) pair hpair)⟩

theorem not_removing_lookup {topic : String} {owed : List (Pair σ)} :
    ¬ Removing (.lookup topic owed) := by
  rintro ⟨pair, hop⟩
  cases hop

theorem PcOk.owed {topic : String} {owed owed' : List (Pair σ)} (hsub : owed' ⊆ owed)
    (h : PcOk mem loc (.lookup topic owed) pc) : PcOk mem loc (.lookup topic owed') pc := by
  cases pc with
  | ilookup tasks found =>
    obtain ⟨_, _, hop, htasks, hcovers⟩ := h
    obtain ⟨rfl, rfl⟩ := Op.lookup.inj hop
    exact ⟨topic, owed', rfl, htasks, fun p x hpair => hcovers p x (hsub hpair)⟩
  | returned subs =>
    intro _ _ hop p x hpair
    obtain ⟨rfl, rfl⟩ := Op.lookup.inj hop
    exact h topic owed rfl p x (hsub hpair)
  | clean i => exact h
  | toCompressed purpose todo left =>
    cases purpose with
    | clean i seen => exact h
    | contract | clear => exact absurd h.1 not_removing_lookup
  | iinsert | insertSwap | iremove | removeSwap => cases h.1
  | removed | cleanParent | loadParent | contractSwap => exact absurd h.1 not_removing_lookup
  | panicked => exact h

theorem OpOk.of_finished {kept kept' : List (Pair σ)}
    (hfinished : ∀ topic owed, c.op = .lookup topic owed → c.pc.finished = true)
    (h : OpOk kept c) : OpOk kept' c := by
  obtain ⟨op, now⟩ := c
  cases op with
  | subscribe other => exact h
  | unsubscribe other => exact h
  | lookup topic owed =>
    refine ⟨h.1, fun hnow => ?_⟩
    rw [hfinished topic owed rfl] at hnow
    cases hnow

variable [DecidableEq σ]

theorem finished_of_advance {restart : Pc σ} {r : Memory σ × Pc σ}
    (h : advance mem restart key pc = some r) : pc.finished = false := by
  cases pc with
  | returned subs => cases h
  | panicked => cases h
  | _ => rfl

theorem mem_keep (h : pair ∈ s.keep op pc) :
    pair ∈ s.kept ∨ (op = .subscribe pair ∧ (∃ subs, pc = .returned subs) ∧
      ∀ c ∈ s.calls, c.unsubscribes pair = false) := by
  unfold State.keep at h
  split at h
  · split_ifs at h with hany
    · exact .inl h
    · obtain rfl | h := mem_cons.mp h
      · refine .inr ⟨rfl, ⟨_, rfl⟩, fun c hc => ?_⟩
        simpa using fun hc' => hany (any_eq_true.mpr ⟨c, hc, hc'⟩)
      · exact .inl h
  · exact .inl h

theorem kept_subset_keep (s : State σ) (op : Op σ) (pc : Pc σ) : s.kept ⊆ s.keep op pc := by
  unfold State.keep
  split
  · split_ifs
    · exact fun _ h => h
    · exact fun _ h => mem_cons_of_mem _ h
  · exact fun _ h => h

theorem unsubscribes_of_op (hc : c.pc.finished = false)
    (h : Call.unsubscribes pair ⟨c.op, pc⟩ = true) : c.unsubscribes pair = true := by
  obtain ⟨op, now⟩ := c
  cases op with
  | unsubscribe other =>
    simp only [Call.unsubscribes, Bool.and_eq_true, Bool.not_eq_true'] at h ⊢
    exact ⟨hc, h.2⟩
  | subscribe other => cases h
  | lookup topic owed => cases h

theorem sound_advance {k : Nat} (hs : Sound s loc) (hk : s.calls[k]? = some c) (hcalm : Calm s c.pc)
    (h : advance s.mem c.op.start key c.pc = some (mem, pc)) :
    ∃ loc', Sound ⟨mem, s.calls.set k { c with pc := pc }, s.keep c.op pc⟩ loc' := by
  have hc := mem_of_getElem? hk
  have hnow := finished_of_advance h
  obtain ⟨loc', cut, hev, hcut, hpc, hreturn⟩ := fine_advance hs hc hcalm h
  obtain ⟨j, hchanges⟩ := hev.changes
  refine ⟨loc', ?_, hchanges.located, hchanges.rooted, ?_, ?_, ?_, ?_⟩
  · rw [hev.labels hs.rooted.lt, hs.label]
  · intro pair hpair
    obtain hpair | ⟨hop, ⟨subs, hpc⟩, -⟩ := mem_keep hpair
    · exact hev.kept hs pair hpair
    · exact hreturn pair subs hop hpc
  · intro pair hpair
    have hfree : ∀ call ∈ s.calls, call.unsubscribes pair = false := by
      obtain hpair | ⟨-, -, hfree⟩ := mem_keep hpair
      · exact hs.free pair hpair
      · exact hfree
    refine forall_mem_set hfree ?_
    by_contra hnot
    have hold := unsubscribes_of_op hnow (eq_true_of_ne_false hnot)
    rw [hfree c hc] at hold
    cases hold
  · exact forall_mem_set (fun call hcall => (hs.ops call hcall).mono (kept_subset_keep ..) id)
      ((hs.ops c hc).mono (kept_subset_keep ..) fun _ => hnow)
  · refine forall_mem_set (fun call hcall =>
      (hs.pcs call hcall).evolve hev (hcut call hcall) ?_) hpc
    intro hpc topic owed hop
    have hok := hs.ops call hcall
    rw [OpOk, hop] at hok
    exact hok.2 hpc

theorem sound_call (hs : Sound s loc) (hop : OpOk s.kept ⟨op, op.start⟩)
    (hfree : ∀ pair ∈ s.kept, Call.unsubscribes pair ⟨op, op.start⟩ = false) :
    Sound (s.call op) loc := by
  refine ⟨hs.label, hs.located, hs.rooted, hs.kept, ?_, forall_mem_snoc hs.ops hop,
    forall_mem_snoc hs.pcs ?_⟩
  · exact fun pair hpair => forall_mem_snoc (hs.free pair hpair) (hfree pair hpair)
  · refine pcOk_start hs.label hs.rooted hs.kept ?_ hop
    cases op <;> rfl

theorem release_cases (pair : Pair σ) (c : Call σ) :
    (c.release pair = c ∧ ∀ topic owed, c.op = .lookup topic owed → c.pc.finished = true) ∨
      ∃ topic owed, c.op = .lookup topic owed ∧
        c.release pair = ⟨.lookup topic (owed.filter (· ≠ pair)), c.pc⟩ := by
  obtain ⟨op, now⟩ := c
  cases op with
  | subscribe other | unsubscribe other => exact .inl ⟨rfl, nofun⟩
  | lookup topic owed =>
    unfold Call.release
    dsimp only
    split_ifs with hfinished
    · exact .inl ⟨rfl, fun _ _ _ => hfinished⟩
    · exact .inr ⟨topic, owed, rfl, rfl⟩

theorem sound_release (hs : Sound s loc) (pair : Pair σ) :
    Sound { s with calls := s.calls.map (Call.release pair), kept := s.kept.filter (· ≠ pair) }
      loc := by
  have hsub : ∀ other ∈ s.kept.filter (· ≠ pair), other ∈ s.kept :=
    fun other h => mem_of_mem_filter h
  refine ⟨hs.label, hs.located, hs.rooted, fun other h => hs.kept other (hsub other h), ?_, ?_, ?_⟩
  · refine fun other hother => forall_mem_map.mpr fun c hc => ?_
    obtain ⟨hsame, -⟩ | ⟨topic, owed, -, hreleased⟩ := release_cases pair c
    · rw [hsame]
      exact hs.free other (hsub other hother) c hc
    · rw [hreleased]
      rfl
  · refine forall_mem_map.mpr fun c hc => ?_
    have hok := hs.ops c hc
    obtain ⟨hsame, hfinished⟩ | ⟨topic, owed, hop, hreleased⟩ := release_cases pair c
    · rw [hsame]
      exact hok.of_finished hfinished
    · rw [OpOk, hop] at hok
      rw [hreleased]
      refine ⟨hok.1, fun hnow other hother => ?_⟩
      obtain ⟨hother, hne⟩ := mem_filter.mp hother
      exact mem_filter.mpr ⟨hok.2 hnow other hother, hne⟩
  · refine forall_mem_map.mpr fun c hc => ?_
    have hok := hs.pcs c hc
    obtain ⟨hsame, -⟩ | ⟨topic, owed, hop, hreleased⟩ := release_cases pair c
    · rw [hsame]
      exact hok
    · rw [hop] at hok
      rw [hreleased]
      exact hok.owed (filter_subset_self _)

theorem sound_start : Sound (start : State σ) fun _ => [] where
  label := rfl
  located := located_newCSTrieMatcher
  rooted := rooted_start
  kept := nofun
  free := nofun
  ops := nofun
  pcs := nofun

theorem sound_step {a : Action σ} (hs : Sound s loc) (hcalm : Undisturbed s a)
    (h : step comparable s a = some t) : ∃ loc', Sound t loc' := by
  cases a with
  | subscribe topic sub =>
    simp only [step] at h
    split_ifs at h
    · cases h
      exact ⟨loc, sound_call hs (splitSegments_ne_nil topic) fun _ _ => rfl⟩
    · cases h
      exact ⟨loc, hs⟩
  | unsubscribe sub =>
    cases h
    refine ⟨loc, sound_call (sound_release hs _) (splitSegments_ne_nil sub.topic) ?_⟩
    intro pair hpair
    have hne := of_decide_eq_true (mem_filter.mp hpair).2
    simp only [Call.unsubscribes, decide_eq_false hne.symm, Bool.and_false]
  | lookup topic =>
    simp only [step] at h
    split_ifs at h with hempty
    · cases h
      exact ⟨loc, hs⟩
    · cases h
      have htopic : [] ∉ splitSegments topic := by simpa using hempty
      exact ⟨loc, sound_call hs ⟨htopic, fun _ _ h => h⟩ fun _ _ => rfl⟩
  | advance k key =>
    simp only [step, Option.bind_eq_bind, Option.bind_eq_some_iff] at h
    obtain ⟨c, hk, ⟨mem, pc⟩, hadvance, h⟩ := h
    cases h
    exact sound_advance hs hk (hcalm c hk) hadvance

theorem sound_run {as : List (Action σ)} (hrun : run comparable start as = some s)
    (hcalm : Transition.Along (step comparable) Undisturbed start as) : ∃ loc, Sound s loc :=
  Transition.invariant_along (P := fun s => ∃ loc, Sound s loc) ⟨_, sound_start⟩
    (fun _ _ _ ⟨_, hs⟩ hcalm h => sound_step hs hcalm h) hrun hcalm

end Runs

/-- In a run whose contractions are undisturbed no call panics, and a lookup that has returned has
found every matching subscription that was kept when it started and that no `Unsubscribe` has come
for since. -/
theorem matcher_updates [DecidableEq σ] {comparable : σ → Bool} {as : List (Action σ)} {s : State σ}
    (hrun : run comparable start as = some s)
    (hcalm : Transition.Along (step comparable) Undisturbed start as) :
    (∀ c ∈ s.calls, c.pc ≠ .panicked) ∧
      ∀ topic owed subs, ⟨.lookup topic owed, .returned subs⟩ ∈ s.calls →
        ∀ pattern x, (splitSegments pattern, x) ∈ owed → matchCriteria pattern topic = true →
          x ∈ subs := by
  obtain ⟨loc, hs⟩ := sound_run hrun hcalm
  constructor
  · intro c hc hpanicked
    have hok := hs.pcs c hc
    rw [hpanicked] at hok
    exact hok
  · intro topic owed subs hc pattern x howed hmatch
    have htopic := (hs.ops _ hc).1
    rw [matchCriteria_eq htopic] at hmatch
    exact hs.pcs _ hc topic owed rfl _ x howed hmatch

section Inputs

def advances (k n : Nat) : List (Action Nat) :=
  List.replicate n (.advance k [])

def overlapping : List (Action Nat) :=
  List.flatten
    [[.subscribe "a.b.c" 7], advances 0 2, [.unsubscribe ⟨"a.b.c", 7⟩], advances 1 3,
      [.subscribe "a.*" 8], advances 2 3, [.lookup "a.b"], advances 3 1, advances 1 4,
      [.advance 1 ['b'], .advance 1 ['*']], advances 1 2, advances 3 2]

/-- The root gets a branch after `cleanParent` has loaded it, before `contract` loads it again. -/
def overwritten : List (Action Nat) :=
  List.flatten
    [[.subscribe "a.b" 7], advances 0 2, [.unsubscribe ⟨"a.b", 7⟩], advances 1 6,
      [.advance 1 ['a']], [.subscribe "d" 8], advances 2 2, advances 1 2, [.lookup "d"],
      advances 3 2]

/-- Two contractions of one parent. The second one clears its branch above, and that node becomes a
T-node before the first one loads it. -/
def tombedAbove : List (Action Nat) :=
  List.flatten
    [[.subscribe "a.b.c.d" 7], advances 0 2, [.subscribe "a.b.e.d" 7], advances 1 4,
      [.subscribe "a.x" 7], advances 2 3, [.unsubscribe ⟨"a.b.c.d", 7⟩], advances 3 8,
      [.unsubscribe ⟨"a.b.e.d", 7⟩], advances 4 8, [.advance 3 ['c'], .advance 3 ['e']],
      [.advance 4 ['c'], .advance 4 ['e']], advances 4 1, [.advance 4 ['x']], advances 4 1,
      [.unsubscribe ⟨"a.x", 7⟩], advances 5 3, advances 3 1]

theorem matcher_updates_overlapping :
    ∃ s subs, run always start overlapping = some s ∧
      Transition.Along (step always) Undisturbed start overlapping ∧
      (∀ c ∈ s.calls, c.pc ≠ .panicked) ∧
      ⟨.lookup "a.b" [(splitSegments "a.*", 8)], .returned subs⟩ ∈ s.calls ∧ 8 ∈ subs := by
  have hcalm : Transition.Along (step always) Undisturbed start overlapping := by decide +kernel
  have hcall : (run always start overlapping).bind (·.calls[3]?) =
      some ⟨.lookup "a.b" [(splitSegments "a.*", 8)], .returned [8]⟩ := by decide +kernel
  obtain ⟨s, hrun, hcall⟩ := Option.bind_eq_some_iff.mp hcall
  have hmem := mem_of_getElem? hcall
  obtain ⟨hpanic, hfound⟩ := matcher_updates hrun hcalm
  exact ⟨s, _, hrun, hcalm, hpanic, hmem,
    hfound "a.b" _ _ hmem "a.*" 8 mem_cons_self (by decide)⟩

/-- A `Subscribe` that has returned is lost, and a call comes upon a T-node without a C-node. -/
theorem matcher_updates_not :
    (∃ s owed subs, run always start overwritten = some s ∧
      ⟨.lookup "d" owed, .returned subs⟩ ∈ s.calls ∧ (splitSegments "d", 8) ∈ owed ∧
      matchCriteria "d" "d" = true ∧ 8 ∉ subs) ∧
    ∃ s, run always start tombedAbove = some s ∧ ∃ c ∈ s.calls, c.pc = .panicked := by
  constructor
  · have hcall : (run always start overwritten).bind (·.calls[3]?) =
        some ⟨.lookup "d" [(splitSegments "d", 8)], .returned []⟩ := by decide +kernel
    obtain ⟨s, hrun, hcall⟩ := Option.bind_eq_some_iff.mp hcall
    exact ⟨s, _, _, hrun, mem_of_getElem? hcall, mem_cons_self, by decide,
      not_mem_nil⟩
  · have hcall : (run always start tombedAbove).bind (·.calls[3]?) =
        some ⟨.unsubscribe (splitSegments "a.b.c.d", 7), .panicked⟩ := by decide +kernel
    obtain ⟨s, hrun, hcall⟩ := Option.bind_eq_some_iff.mp hcall
    exact ⟨s, hrun, _, mem_of_getElem? hcall, rfl⟩

end Inputs

end MessageLoop.Trie.Concurrent
