import MessageLoop.Session.Hub

/-!
The broker interest that the subscriptions of a hub call for, and how it moves when one is added
or removed.
-/

namespace MessageLoop.Hub

open Topics Finset Finmap

variable {h h' : Hub} {ch ch' sid : String} {sub : Subscriber} {first : Bool}

/-- The broker interest that the subscriptions call for: one for an exact channel that has any,
one for each wildcard subscription. -/
def wants (h : Hub) (ch : String) : Nat :=
  if isWildcard ch then
    (h.wcSubs.keys.filter fun key => (h.wcSubs.lookup key).map Prod.fst = some ch).card
  else if h.subs ch = ∅ then 0 else 1

/-- The wildcard records found under a session ID were made for the pattern they are found by. -/
def Patterned (h : Hub) (sid : String) : Prop :=
  ∀ ch p r, h.wcSubs.lookup (wildcardKey sid ch) = some (p, r) → p = ch

theorem removeSub_fst_addSub (hadd : h.addSub ch sid sub = .ok (first, h')) (hne : ch' ≠ ch) :
    (h'.removeSub ch' sid).1 = (h.removeSub ch' sid).1 := by
  have hsubs : isWildcard ch' = false → h'.subs ch' = h.subs ch' := by
    intro _
    unfold addSub at hadd
    split_ifs at hadd <;> cases hadd <;> simp [Function.update_of_ne hne]
  unfold removeSub
  by_cases hw : isWildcard ch'
  · simp only [hw, if_true]
    split_ifs <;> rfl
  · simp only [hw, hsubs (by simpa using hw), Bool.false_eq_true, if_false]
    split_ifs <;> rfl

theorem removeSub_fst_removeSub (hne : ch' ≠ ch) :
    ((h.removeSub ch sid).2.2.removeSub ch' sid).1 = (h.removeSub ch' sid).1 := by
  have hsubs : (h.removeSub ch sid).2.2.subs ch' = h.subs ch' := by
    unfold removeSub
    split_ifs <;> simp [Function.update_of_ne hne]
  generalize (h.removeSub ch sid).2.2 = g at hsubs ⊢
  unfold removeSub
  rw [hsubs]
  split_ifs <;> rfl

theorem patterned_addSub (hpat : h.Patterned sid) (hadd : h.addSub ch sid sub = .ok (first, h')) :
    h'.Patterned sid := by
  intro x p r hr
  unfold addSub at hadd
  split_ifs at hadd with hw hmem hvalid hvalid
  · cases hadd
    exact hpat x p r hr
  · cases hadd
    by_cases hx : x = ch
    · subst hx
      simp only [lookup_insert, Option.some.injEq, Prod.mk.injEq] at hr
      exact hr.1.symm
    · rw [lookup_insert_of_ne _ (fun hk => hx (wildcardKey_inj.mp hk))] at hr
      exact hpat x p r hr
  · cases hadd
    exact hpat x p r hr

theorem patterned_removeSub (hpat : h.Patterned sid) : (h.removeSub ch sid).2.2.Patterned sid := by
  intro x p r hr
  unfold removeSub at hr
  split_ifs at hr with hw hmem hmem
  · by_cases hx : x = ch
    · subst hx
      simp at hr
    · rw [lookup_erase_ne (fun hk => hx (wildcardKey_inj.mp hk))] at hr
      exact hpat x p r hr
  · exact hpat x p r hr
  · exact hpat x p r hr
  · exact hpat x p r hr

/-- The hub after an `AddSub` that finds no record and is not refused. -/
def withSub (h : Hub) (ch sid : String) (sub : Subscriber) : Hub :=
  if isWildcard ch then { h with wcSubs := h.wcSubs.insert (wildcardKey sid ch) (ch, sub) }
  else { h with subs := Function.update h.subs ch ((h.subs ch).insert sid sub) }

theorem addSub_eq_withSub (hnone : h.lookupSubscriber ch sid = none)
    (hadd : h.addSub ch sid sub = .ok (first, h')) :
    h' = h.withSub ch sid sub ∧ first = decide (isWildcard ch ∨ h.subs ch = ∅) := by
  unfold addSub at hadd
  unfold withSub
  split_ifs at hadd with hw hmem
  · exact absurd hmem (not_mem_of_lookup_none hw hnone)
  · cases hadd
    simp [hw]
  · cases hadd
    simp [hw]

theorem withSub_removeSub (hpat : h.Patterned sid) (hsome : h.lookupSubscriber ch sid = some sub) :
    (h.removeSub ch sid).2.2.withSub ch sid sub = h ∧
      (h.removeSub ch sid).1 = decide (isWildcard ch ∨ (h.removeSub ch sid).2.2.subs ch = ∅) := by
  unfold lookupSubscriber at hsome
  split_ifs at hsome with hw
  · obtain ⟨⟨p, r⟩, hr, rfl⟩ := Option.map_eq_some_iff.mp hsome
    obtain rfl := hpat ch p r hr
    simp [removeSub, withSub, hw, mem_of_lookup_eq_some hr, insert_erase_of_lookup hr]
  · simp [removeSub, withSub, hw, mem_of_lookup_eq_some hsome, insert_erase_of_lookup hsome]

theorem wants_withSub (ch' : String) (sub : Subscriber) (hnone : h.lookupSubscriber ch sid = none) :
    (h.withSub ch sid sub).wants ch' =
      h.wants ch' + if ch' = ch ∧ (isWildcard ch ∨ h.subs ch = ∅) then 1 else 0 := by
  unfold withSub
  by_cases hw : isWildcard ch
  · rw [if_pos hw]
    unfold wants
    have hnew : wildcardKey sid ch ∉ h.wcSubs.keys :=
      fun hk => not_mem_of_lookup_none hw hnone (mem_keys.mp hk)
    have hold : ∀ p, h.wcSubs.keys.filter (fun key =>
        ((h.wcSubs.insert (wildcardKey sid ch) (ch, sub)).lookup key).map Prod.fst = some p) =
        h.wcSubs.keys.filter (fun key => (h.wcSubs.lookup key).map Prod.fst = some p) := by
      intro p
      apply filter_congr
      intro key hkey
      have hne : key ≠ wildcardKey sid ch := fun he => hnew (he ▸ hkey)
      rw [lookup_insert_of_ne _ hne]
    by_cases hch : ch' = ch
    · subst hch
      simp only [hw, if_true, keys_insert, filter_insert, lookup_insert, Option.map_some, hold,
        true_or, and_self]
      exact card_insert_of_notMem fun hk => hnew (mem_of_mem_filter _ hk)
    · simp [hch, keys_insert, filter_insert, hold, Ne.symm hch]
  · rw [if_neg hw]
    unfold wants
    by_cases hch : ch' = ch
    · subst hch
      have hne : (h.subs ch').insert sid sub ≠ ∅ := by
        intro he
        have hlookup := lookup_insert (h.subs ch') (a := sid) (b := sub)
        rw [he] at hlookup
        cases hlookup
      simp only [hw, Bool.false_eq_true, if_false, Function.update_self, hne, true_and, false_or]
      split_ifs <;> rfl
    · simp [hch]

theorem wants_addSub (ch' : String) (hnone : h.lookupSubscriber ch sid = none)
    (hadd : h.addSub ch sid sub = .ok (first, h')) :
    h'.wants ch' = h.wants ch' + if ch' = ch ∧ first then 1 else 0 := by
  obtain ⟨rfl, rfl⟩ := addSub_eq_withSub hnone hadd
  simpa using wants_withSub ch' sub hnone

theorem wants_removeSub (ch' : String) (hpat : h.Patterned sid)
    (hsome : h.lookupSubscriber ch sid ≠ none) :
    (h.removeSub ch sid).2.2.wants ch' + (if ch' = ch ∧ (h.removeSub ch sid).1 then 1 else 0) =
      h.wants ch' := by
  obtain ⟨sub, hsub⟩ := Option.ne_none_iff_exists'.mp hsome
  obtain ⟨hback, hlast⟩ := withSub_removeSub hpat hsub
  have hnone : (h.removeSub ch sid).2.2.lookupSubscriber ch sid = none := by
    rw [lookupSubscriber_removeSub, if_pos rfl]
  have hwants := wants_withSub ch' sub hnone
  rw [hback] at hwants
  simpa [hlast] using hwants.symm

end MessageLoop.Hub
