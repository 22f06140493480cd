import MessageLoop.Lib.HighWater
import MessageLoop.Redis.Live
import Mathlib.Algebra.BigOperators.Fin
import Mathlib.Data.Prod.Lex

/-! Exactly-once, in-order live delivery on one channel: what every interleaving keeps, and which
interleavings of the two Redis operations of `Publish` the receiver delivers completely. -/

namespace MessageLoop.Redis

open HighWater Topics List

variable {β : Type} {ch name : String} {s t : State β} {p : Publication β} {a : Action β}
variable {extra k : Nat} {w : Fin deliveryWorkers} {content : β} {now : UInt64}

abbrev offsetKey (p : Publication β) : Nat :=
  p.offset.toNat

theorem offsetKey_eq_bot : offsetKey p = ⊥ ↔ p.offset = 0 := by
  rw [Nat.bot_eq_zero, ← UInt64.toNat_inj]
  rfl

section Lists

@[simp] theorem on_nil : on ch ([] : List (Publication β)) = [] := rfl

@[simp] theorem on_append (ps qs : List (Publication β)) :
    on ch (ps ++ qs) = on ch ps ++ on ch qs := filter_append ..

theorem on_cons (p : Publication β) (ps : List (Publication β)) :
    on ch (p :: ps) = on ch [p] ++ on ch ps := on_append [p] ps

theorem on_other (h : p.channel ≠ ch) : on ch [p] = [] := by
  simp [on, h]

theorem on_same (h : p.channel = ch) : on ch [p] = [p] := by
  simp [on, h]

def publishedOn (ch : String) (s : State β) : List (Publication β × Nat) :=
  s.published.filter (·.1.channel = ch)

theorem on_map_fst (ps : List (Publication β × Nat)) :
    on ch (ps.map Prod.fst) = (ps.filter (·.1.channel = ch)).map Prod.fst := by
  simp only [on, filter_map, Function.comp_def]

theorem on_fanout (ps : List (Publication β × Nat)) :
    on ch (fanout ps) = fanout (ps.filter (·.1.channel = ch)) := by
  induction ps with
  | nil => rfl
  | cons p ps ih =>
    have hcons : fanout (p :: ps) = replicate (p.2 + 1) p.1 ++ fanout ps := rfl
    rw [hcons, on_append, ih]
    by_cases hp : p.1.channel = ch
    · simp [on, hp, fanout]
    · simp [on, hp]

end Lists

section Inversion

theorem publishScript_eq_some (h : publishScript s name content now = some t) :
    ∃ e : Entry β, t = { s with
      counters := Function.update s.counters name (s.counters name + 1)
      streams := Function.update s.streams name (s.streams name ++ [e])
      scripted := s.scripted ++ [entryPublication name e] } := by
  obtain ⟨id, -, rfl⟩ := Option.map_eq_some_iff.mp h
  exact ⟨_, rfl⟩

theorem publish_eq_some (h : publish s k extra = some t) :
    ∃ p, s.scripted[k]? = some p ∧ t = { s with
      scripted := s.scripted.eraseIdx k
      wire := s.wire ++ replicate (extra + 1) p
      published := s.published ++ [(p, extra)] } := by
  obtain ⟨p, hp, rfl⟩ := Option.map_eq_some_iff.mp h
  exact ⟨p, hp, rfl⟩

theorem receive_eq_some (h : receive s = some t) :
    ∃ p rest, s.outgoing = none ∧ s.wire = p :: rest ∧
      (interested s p.channel = false ∧ t = { s with wire := rest } ∨
        t = deliverOnce { s with wire := rest } p) := by
  unfold receive at h
  split at h
  · rename_i p rest hout hwire
    refine ⟨p, rest, hout, hwire, ?_⟩
    split at h
    · exact .inr (Option.some.inj h).symm
    · rename_i hint
      exact .inl ⟨by simpa using hint, (Option.some.inj h).symm⟩
  · cases h

theorem dispatch_eq_some (h : dispatch s = some t) :
    ∃ p, s.outgoing = some p ∧ t = { s with
      outgoing := none
      deliverChans := Function.update s.deliverChans (deliveryWorkerIndex p.channel)
        (s.deliverChans (deliveryWorkerIndex p.channel) ++ [p]) } := by
  obtain ⟨p, hp, h⟩ := Option.bind_eq_some_iff.mp h
  refine ⟨p, hp, ?_⟩
  dsimp only at h
  split at h
  · exact (Option.some.inj h).symm
  · cases h

theorem work_eq_some (h : work s w = some t) :
    ∃ p rest, s.deliverChans w = p :: rest ∧ t = { s with
      deliverChans := Function.update s.deliverChans w rest
      handled := s.handled ++ [p] } := by
  unfold work at h
  split at h
  · cases h
  · rename_i p rest hq
    exact ⟨p, rest, hq, (Option.some.inj h).symm⟩

/-- Either the publication passes the high-water mark of its channel, which rises to its offset,
or nothing changes. -/
theorem deliverOnce_spec (s : State β) (p : Publication β) :
    (∃ lo ls, deliverOnce s p =
        { s with lastOffsets := lo, lastSeqs := ls, outgoing := some p } ∧
      Passes offsetKey ((s.lastOffsets p.channel).getD 0).toNat p ∧
      ((lo p.channel).getD 0).toNat =
        max ((s.lastOffsets p.channel).getD 0).toNat (offsetKey p) ∧
      ∀ name, name ≠ p.channel → lo name = s.lastOffsets name) ∨
    (deliverOnce s p = s ∧ ¬ Passes offsetKey ((s.lastOffsets p.channel).getD 0).toNat p) := by
  unfold deliverOnce Passes
  rw [offsetKey_eq_bot]
  by_cases hzero : p.offset = 0
  · rw [if_pos hzero]
    exact .inl ⟨_, _, rfl, .inl hzero, by simp [offsetKey, hzero], fun _ _ => rfl⟩
  · rw [if_neg hzero]
    by_cases hseen : (s.lastOffsets p.channel).any (p.offset ≤ ·)
    · rw [if_pos hseen]
      refine .inr ⟨rfl, not_or.mpr ⟨hzero, ?_⟩⟩
      obtain ⟨last, hlast, hle⟩ := (Option.any_eq_true _ _).mp hseen
      rw [hlast]
      simpa [UInt64.le_iff_toNat_le] using hle
    · rw [if_neg hseen]
      have hlt : ((s.lastOffsets p.channel).getD 0).toNat < offsetKey p := by
        cases hlast : s.lastOffsets p.channel with
        | none => exact Nat.pos_of_ne_zero fun h => hzero (UInt64.toNat_inj.mp h)
        | some last => simpa [hlast, UInt64.le_iff_toNat_le] using hseen
      refine .inl ⟨_, _, rfl, .inr hlt, ?_, fun name h => Function.update_of_ne h ..⟩
      simp [Nat.max_eq_right hlt.le, offsetKey]

end Inversion

section Custody

def underway (ch : String) (s : State β) : List (Publication β) :=
  on ch s.handled ++ on ch (s.deliverChans (deliveryWorkerIndex ch)) ++ on ch s.outgoing.toList

/-- Where the publications of a channel are: numbered ones are published or still to be published;
the copies received so far passed the high-water filter and are handled or on their way. -/
structure Custody (ch : String) (s : State β) : Prop where
  interest : 0 < s.subscribed ch
  routed : ∀ w, ∀ p ∈ s.deliverChans w, deliveryWorkerIndex p.channel = w
  numbered : (on ch (s.published.map Prod.fst) ++ on ch s.scripted).Perm (accepted s ch)
  conveyed : ∃ received, on ch (fanout s.published) = received ++ on ch s.wire ∧
    underway ch s = passed offsetKey ⊥ received ∧
    ((s.lastOffsets ch).getD 0).toNat = mark offsetKey ⊥ received

def KeepsInterest (ch : String) (s : State β) (a : Action β) : Prop :=
  0 < s.subscribed ch ∧ match a with
    | .unsubscribe name => name = ch → 1 < s.subscribed ch
    | _ => True

instance (ch : String) (s : State β) : (a : Action β) → Decidable (KeepsInterest ch s a)
  | .unsubscribe name => inferInstanceAs (Decidable (_ ∧ (name = ch → 1 < s.subscribed ch)))
  | .script .. | .publish .. | .receive | .dispatch | .work _ | .subscribe _ =>
    inferInstanceAs (Decidable (_ ∧ True))

theorem custody_start {subscribed : String → Nat} (patterns : List String)
    (h : 0 < subscribed ch) : Custody ch (State.start subscribed patterns : State β) where
  interest := h
  routed _ _ hp := absurd hp not_mem_nil
  numbered := List.Perm.refl _
  conveyed := ⟨[], rfl, rfl, rfl⟩

theorem publishScript_custody (hc : Custody ch s) (h : publishScript s name content now = some t) :
    Custody ch t := by
  obtain ⟨e, rfl⟩ := publishScript_eq_some h
  refine { hc with numbered := ?_ }
  by_cases hname : name = ch
  · subst hname
    have hnew := hc.numbered.append_right [entryPublication name e]
    have hon : on name [entryPublication name e] = [entryPublication name e] := on_same rfl
    simpa [accepted, hon] using hnew
  · have hne : ch ≠ name := fun h => hname h.symm
    simpa [accepted, hne, on_other (p := entryPublication name e) hname] using hc.numbered

theorem publish_custody (hc : Custody ch s) (h : publish s k extra = some t) :
    Custody ch t := by
  obtain ⟨p, hp, rfl⟩ := publish_eq_some h
  obtain ⟨received, hwire, hunder, hmark⟩ := hc.conveyed
  refine ⟨hc.interest, hc.routed, ?_, received, ?_, hunder, hmark⟩
  · obtain ⟨hk, rfl⟩ := List.getElem?_eq_some_iff.mp hp
    have hmove := getElem_cons_eraseIdx_perm hk
    have hon : (on ch [s.scripted[k]] ++ on ch (s.scripted.eraseIdx k)).Perm
      (on ch s.scripted) := by
      rw [← on_cons]
      exact hmove.filter _
    refine List.Perm.trans ?_ hc.numbered
    simpa using hon.append_left (on ch (s.published.map Prod.fst))
  · have hsplit : fanout (s.published ++ [(p, extra)]) =
        fanout s.published ++ replicate (extra + 1) p := by
      simp [fanout]
    simp [hsplit, hwire]

theorem receive_custody (hc : Custody ch s) (h : receive s = some t) : Custody ch t := by
  obtain ⟨p, rest, hout, hwire, hcase⟩ := receive_eq_some h
  obtain ⟨received, hconv, hunder, hmark⟩ := hc.conveyed
  rw [hwire, on_cons] at hconv
  rcases hcase with ⟨hnot, rfl⟩ | rfl
  · have hother : p.channel ≠ ch := by
      rintro rfl
      simp [interested, hc.interest] at hnot
    rw [on_other hother] at hconv
    exact { hc with conveyed := ⟨received, hconv, hunder, hmark⟩ }
  · have hidle : on ch s.outgoing.toList = [] := by simp [hout]
    by_cases hch : p.channel = ch
    · subst hch
      rw [on_same rfl, ← append_assoc] at hconv
      have hunder' := hunder
      simp only [underway, hidle, append_nil] at hunder'
      rcases deliverOnce_spec { s with wire := rest } p with
        ⟨lo, ls, heq, hpass, hlo, -⟩ | ⟨heq, hpass⟩
      · rw [heq]
        refine { hc with conveyed := ⟨received ++ [p], hconv, ?_, ?_⟩ }
        · rw [passed_append, ← hmark, passed_of_passes offsetKey hpass, ← hunder']
          simp [underway, on_same, passed]
        · rw [mark_snoc, ← hmark]
          exact hlo
      · rw [heq]
        refine { hc with conveyed := ⟨received ++ [p], hconv, ?_, ?_⟩ }
        · rw [passed_append, ← hmark, passed, if_neg hpass, ← hunder]
          simp [underway, passed]
        · rw [mark_snoc, ← hmark]
          exact (sup_eq_of_not_passes offsetKey hpass).symm
    · rw [on_other hch] at hconv
      rcases deliverOnce_spec { s with wire := rest } p with ⟨lo, ls, heq, -, -, hlo⟩ | ⟨heq, -⟩
      · rw [heq]
        refine { hc with conveyed := ⟨received, hconv, ?_, ?_⟩ }
        · rw [← hunder]
          simp [underway, hidle, on_other hch]
        · rw [← hmark]
          exact congrArg (fun o : Option UInt64 => (o.getD 0).toNat) (hlo ch fun h => hch h.symm)
      · rw [heq]
        exact { hc with conveyed := ⟨received, hconv, hunder, hmark⟩ }

theorem routed_update {chans : Fin deliveryWorkers → List (Publication β)}
    {ps : List (Publication β)} (hchans : ∀ v, ∀ p ∈ chans v, deliveryWorkerIndex p.channel = v)
    (hps : ∀ p ∈ ps, deliveryWorkerIndex p.channel = w) :
    ∀ v, ∀ p ∈ Function.update chans w ps v, deliveryWorkerIndex p.channel = v := by
  intro v p hp
  by_cases hv : v = w
  · subst hv
    rw [Function.update_self] at hp
    exact hps p hp
  · rw [Function.update_of_ne hv] at hp
    exact hchans v p hp

variable (hc : Custody ch s)
include hc

theorem dispatch_custody (h : dispatch s = some t) : Custody ch t := by
  obtain ⟨p, hp, rfl⟩ := dispatch_eq_some h
  obtain ⟨received, hconv, hunder, hmark⟩ := hc.conveyed
  refine ⟨hc.interest, routed_update hc.routed ?_, hc.numbered, received, hconv, ?_, hmark⟩
  · exact forall_mem_snoc (hc.routed _) rfl
  · rw [← hunder]
    by_cases hw : deliveryWorkerIndex ch = deliveryWorkerIndex p.channel
    · simp [underway, hp, hw]
    · have hother : p.channel ≠ ch := fun h => hw (by rw [h])
      simp [underway, hp, hw, on_other hother]

theorem work_custody (h : work s w = some t) :
    Custody ch t := by
  obtain ⟨p, rest, hq, rfl⟩ := work_eq_some h
  obtain ⟨received, hconv, hunder, hmark⟩ := hc.conveyed
  refine ⟨hc.interest, routed_update hc.routed ?_, hc.numbered, received, hconv, ?_, hmark⟩
  · exact fun q hmem => hc.routed w q (hq ▸ mem_cons_of_mem p hmem)
  · rw [← hunder]
    by_cases hw : deliveryWorkerIndex ch = w
    · subst hw
      simp [underway, hq, on_cons p rest]
    · have hother : p.channel ≠ ch := by
        rintro rfl
        exact hw (hc.routed w p (hq ▸ mem_cons_self))
      simp [underway, hw, on_other hother]

theorem subscribe_custody (name : String) : Custody ch (subscribe s name) := by
  have hadded : 0 < Function.update s.subscribed name (s.subscribed name + 1) ch := by
    by_cases hname : ch = name
    · subst hname
      simp
    · simpa [hname] using hc.interest
  unfold subscribe
  split
  · exact hc
  · split
    · exact { hc with }
    · exact { hc with interest := hadded }

theorem unsubscribe_custody (hkeep : name = ch → 1 < s.subscribed ch) :
    Custody ch (unsubscribe s name) := by
  unfold unsubscribe
  split
  · exact { hc with }
  · split
    · rename_i hlast
      have hne : ch ≠ name := by
        rintro rfl
        have := hkeep rfl
        omega
      obtain ⟨received, hconv, hunder, hmark⟩ := hc.conveyed
      refine ⟨?_, hc.routed, hc.numbered, received, hconv, hunder, ?_⟩
      · simpa [hne] using hc.interest
      · simpa [hne] using hmark
    · refine { hc with interest := ?_ }
      by_cases hname : ch = name
      · subst hname
        have := hkeep rfl
        simp only [Function.update_self]
        omega
      · simpa [hname] using hc.interest

theorem step_custody (hkeep : KeepsInterest ch s a) (h : step s a = some t) : Custody ch t := by
  cases a with
  | script name content now =>
    simp only [step] at h
    split at h
    · exact publishScript_custody hc h
    · exact Option.some.inj h ▸ hc
  | publish k extra => exact publish_custody hc h
  | receive => exact receive_custody hc h
  | dispatch => exact dispatch_custody hc h
  | work w => exact work_custody hc h
  | subscribe name => exact Option.some.inj h ▸ subscribe_custody hc name
  | unsubscribe name => exact Option.some.inj h ▸ unsubscribe_custody hc hkeep.2

end Custody

section Order

/-- A `PUBLISH` on `ch` carries an offset above every offset published on `ch` before. The zero
offset, which the encoding reaches when the millisecond part wraps, must not be duplicated. -/
def PublishesInOrder (ch : String) (s : State β) : Action β → Prop
  | .publish k extra => ∀ p, s.scripted[k]? = some p → p.channel = ch →
      (∀ q ∈ publishedOn ch s, q.1.offset < p.offset) ∧ (p.offset = 0 → extra = 0)
  | _ => True

def PublishedInOrder (ch : String) (s : State β) : Prop :=
  Increasing offsetKey ((publishedOn ch s).map Prod.fst) ∧ Single offsetKey (publishedOn ch s)

theorem deliverOnce_published (s : State β) (p : Publication β) :
    (deliverOnce s p).published = s.published := by
  rcases deliverOnce_spec s p with ⟨_, _, heq, -⟩ | ⟨heq, -⟩
  · rw [heq]
  · rw [heq]

theorem step_published (h : step s a = some t) :
    ((∀ k extra, a ≠ .publish k extra) ∧ t.published = s.published) ∨
    ∃ k extra p, a = .publish k extra ∧ s.scripted[k]? = some p ∧
      t.published = s.published ++ [(p, extra)] := by
  cases a with
  | publish k extra =>
    obtain ⟨p, hp, rfl⟩ := publish_eq_some h
    exact .inr ⟨k, extra, p, rfl, hp, rfl⟩
  | script name content now =>
    refine .inl ⟨nofun, ?_⟩
    simp only [step] at h
    split at h
    · obtain ⟨e, rfl⟩ := publishScript_eq_some h
      rfl
    · exact Option.some.inj h ▸ rfl
  | receive =>
    refine .inl ⟨nofun, ?_⟩
    obtain ⟨p, rest, -, -, ⟨-, rfl⟩ | rfl⟩ := receive_eq_some h
    · rfl
    · exact deliverOnce_published _ p
  | dispatch =>
    obtain ⟨p, -, rfl⟩ := dispatch_eq_some h
    exact .inl ⟨nofun, rfl⟩
  | work w =>
    obtain ⟨p, rest, -, rfl⟩ := work_eq_some h
    exact .inl ⟨nofun, rfl⟩
  | subscribe name =>
    cases h
    refine .inl ⟨nofun, ?_⟩
    unfold subscribe
    split
    · rfl
    · split <;> rfl
  | unsubscribe name =>
    cases h
    refine .inl ⟨nofun, ?_⟩
    unfold unsubscribe
    split
    · rfl
    · split <;> rfl

theorem publishedInOrder_snoc {ps : List (Publication β × Nat)} :
    Increasing offsetKey ((ps ++ [(p, extra)]).map Prod.fst) ∧
        Single offsetKey (ps ++ [(p, extra)]) ↔
      (Increasing offsetKey (ps.map Prod.fst) ∧ Single offsetKey ps) ∧
        (∀ q ∈ ps, q.1.offset < p.offset) ∧ (p.offset = 0 → extra = 0) := by
  simp only [Increasing, Single, map_append, pairwise_append, map_cons,
    map_nil, pairwise_singleton, mem_append, mem_singleton, mem_map,
    offsetKey_eq_bot, UInt64.lt_iff_toNat_lt]
  constructor
  · rintro ⟨⟨hinc, -, habove⟩, hs⟩
    refine ⟨⟨hinc, fun q hq => hs q (.inl hq)⟩, fun q hq => ?_, hs _ (.inr rfl)⟩
    exact habove q.1 ⟨q, hq, rfl⟩ p rfl
  · rintro ⟨⟨hinc, hs⟩, habove, hzero⟩
    refine ⟨⟨hinc, trivial, ?_⟩, ?_⟩
    · rintro x ⟨q, hq, rfl⟩ y rfl
      exact habove q hq
    · rintro q (hq | rfl)
      · exact hs q hq
      · exact hzero

theorem step_publishedInOrder (h : step s a = some t) :
    PublishedInOrder ch t ↔ PublishedInOrder ch s ∧ PublishesInOrder ch s a := by
  rcases step_published h with ⟨hother, hsame⟩ | ⟨k, extra, p, rfl, hp, hnew⟩
  · have hok : PublishesInOrder ch s a := by
      cases a with
      | publish k extra => exact absurd rfl (hother k extra)
      | _ => trivial
    simp [PublishedInOrder, publishedOn, hsame, hok]
  · simp only [PublishesInOrder, hp, Option.some.injEq, forall_eq']
    by_cases hch : p.channel = ch
    · have hlog : publishedOn ch t = publishedOn ch s ++ [(p, extra)] := by
        simp [publishedOn, hnew, hch]
      rw [PublishedInOrder, hlog, publishedInOrder_snoc]
      simp [PublishedInOrder, hch]
    · have hlog : publishedOn ch t = publishedOn ch s := by
        simp [publishedOn, hnew, hch]
      simp [PublishedInOrder, hlog, hch]

end Order

section Progress

/-- The labels that move a publication on; a `Publish` call still starts with `script`. -/
def Action.Delivers : Action β → Prop
  | .publish .. | .receive | .dispatch | .work _ => True
  | _ => False

def backlog (s : State β) : Nat ×ₗ Nat :=
  toLex (s.scripted.length,
    3 * s.wire.length + 2 * s.outgoing.toList.length + ∑ w, (s.deliverChans w).length)

theorem delivery_enabled (hbusy : ¬ Quiescent s) : ∃ a t, a.Delivers ∧ step s a = some t := by
  by_cases hqueue : ∃ w, s.deliverChans w ≠ []
  · obtain ⟨w, hw⟩ := hqueue
    obtain ⟨p, rest, hq⟩ := exists_cons_of_ne_nil hw
    exact ⟨.work w, _, trivial, by simp [step, work, hq]; rfl⟩
  · simp only [not_exists, not_not] at hqueue
    cases hout : s.outgoing with
    | some p =>
      exact ⟨.dispatch, _, trivial, by simp [step, dispatch, hout, hqueue, deliveryQueueSize]; rfl⟩
    | none =>
      cases hwire : s.wire with
      | cons p rest =>
        cases hint : interested s p.channel with
        | true | false =>
          exact ⟨.receive, _, trivial, by simp [step, receive, hout, hwire, hint]; rfl⟩
      | nil =>
        have hscripted : s.scripted ≠ [] := fun h => hbusy ⟨h, hwire, hout, hqueue⟩
        obtain ⟨p, rest, hs⟩ := exists_cons_of_ne_nil hscripted
        exact ⟨.publish 0 0, _, trivial, by simp [step, publish, hs]; rfl⟩

theorem sum_length_update (chans : Fin deliveryWorkers → List (Publication β))
    (w : Fin deliveryWorkers) (ps : List (Publication β)) :
    ∑ v, (Function.update chans w ps v).length + (chans w).length =
      ∑ v, (chans v).length + ps.length := by
  have hsplit : ∀ f : Fin deliveryWorkers → List (Publication β),
      ∑ v, (f v).length = (f w).length + ∑ v ∈ Finset.univ.erase w, (f v).length := fun f =>
    (Finset.add_sum_erase _ _ (Finset.mem_univ w)).symm
  have hrest : ∑ v ∈ Finset.univ.erase w, (Function.update chans w ps v).length =
      ∑ v ∈ Finset.univ.erase w, (chans v).length :=
    Finset.sum_congr rfl fun v hv => by rw [Function.update_of_ne (Finset.ne_of_mem_erase hv)]
  rw [hsplit (Function.update chans w ps), hsplit chans, hrest, Function.update_self]
  omega

theorem delivery_decreases (ha : a.Delivers) (h : step s a = some t) :
    backlog t < backlog s := by
  cases a with
  | publish k extra =>
    obtain ⟨p, hp, rfl⟩ := publish_eq_some h
    obtain ⟨hk, -⟩ := List.getElem?_eq_some_iff.mp hp
    refine Prod.Lex.toLex_lt_toLex.mpr (.inl ?_)
    simp only [length_eraseIdx, hk, if_true]
    omega
  | receive =>
    obtain ⟨p, rest, hout, hwire, ⟨-, rfl⟩ | rfl⟩ := receive_eq_some h
    · refine Prod.Lex.toLex_lt_toLex.mpr (.inr ⟨rfl, ?_⟩)
      simp [hwire]
    · rcases deliverOnce_spec { s with wire := rest } p with ⟨_, _, heq, -⟩ | ⟨heq, -⟩
      · rw [heq]
        refine Prod.Lex.toLex_lt_toLex.mpr (.inr ⟨rfl, ?_⟩)
        simp only [hwire, hout, Option.toList_some, Option.toList_none, length_cons,
          length_nil]
        omega
      · rw [heq]
        refine Prod.Lex.toLex_lt_toLex.mpr (.inr ⟨rfl, ?_⟩)
        simp [hwire]
  | dispatch =>
    obtain ⟨p, hp, rfl⟩ := dispatch_eq_some h
    refine Prod.Lex.toLex_lt_toLex.mpr (.inr ⟨rfl, ?_⟩)
    have hsum := sum_length_update s.deliverChans (deliveryWorkerIndex p.channel)
      (s.deliverChans (deliveryWorkerIndex p.channel) ++ [p])
    simp only [length_append, length_singleton] at hsum
    simp only [hp, Option.toList_some, Option.toList_none, length_cons, length_nil]
    omega
  | work w =>
    obtain ⟨p, rest, hq, rfl⟩ := work_eq_some h
    refine Prod.Lex.toLex_lt_toLex.mpr (.inr ⟨rfl, ?_⟩)
    have hsum := sum_length_update s.deliverChans w rest
    simp only [hq, length_cons] at hsum
    dsimp only
    omega
  | script | subscribe | unsubscribe => exact ha.elim

end Progress

section Main

/-- The handler saw the accepted publications of the channel, each once, in offset order. -/
def DeliveredInOrder (ch : String) (s : State β) : Prop :=
  Increasing offsetKey (on ch s.handled) ∧ (on ch s.handled).Perm (accepted s ch)

theorem deliveredInOrder_iff (hc : Custody ch s) (hq : Quiescent s) :
    DeliveredInOrder ch s ↔ PublishedInOrder ch s := by
  obtain ⟨hscripted, hwire, hout, hqueues⟩ := hq
  obtain ⟨received, hconv, hunder, -⟩ := hc.conveyed
  have hhandled : on ch s.handled = passed offsetKey ⊥ (fanout (publishedOn ch s)) := by
    rw [hwire, on_nil, append_nil, on_fanout] at hconv
    rw [publishedOn, hconv, ← hunder]
    simp [underway, hout, hqueues]
  have hnumbered : ((publishedOn ch s).map Prod.fst).Perm (accepted s ch) := by
    simpa [hscripted, on_map_fst, publishedOn] using hc.numbered
  rw [DeliveredInOrder, hhandled, PublishedInOrder, ← passed_fanout_perm_iff]
  exact and_congr_right' ⟨fun h => h.trans hnumbered.symm, fun h => h.trans hnumbered⟩

def orderedRun : List (Action Unit) :=
  [.script "room" () 1, .script "room" () 1, .publish 0 0, .publish 0 0, .receive, .dispatch,
    .receive, .dispatch, .work (deliveryWorkerIndex "room"), .work (deliveryWorkerIndex "room")]

/-- The second call publishes first, so the publication of the first call is dropped. -/
def overtakenRun : List (Action Unit) :=
  [.script "room" () 1, .script "room" () 1, .publish 1 0, .publish 0 0, .receive, .dispatch,
    .receive, .work (deliveryWorkerIndex "room")]

abbrev oneRoom : State Unit :=
  .start (Function.update (fun _ => 0) "room" 1) []

end Main

end MessageLoop.Redis
