import MessageLoop.Lib.Locks
import MessageLoop.ServerAPI.Auth

/-!
Who gets past the authentication of the Server API: handlers are invoked for static tokens, for
insecure access, and for credentials that the proxy has accepted not too long ago.
-/

namespace MessageLoop.ServerAPI.Auth

open Authz List Option Finmap

variable {o : AuthOptions} {sha256 : String → String} {time now clock : Int} {evict : String}
variable {c : VerifyCall} {identity : APIIdentity} {q : Request} {i : Nat}

/-- The proxy has accepted the credential of the call, gave this identity, and its answer may be
used up to `time`. -/
def Grants (o : AuthOptions) (c : VerifyCall) (identity : APIIdentity) (time : Int) : Prop :=
  ∃ info, c.response = some (.allow info) ∧ identity = verifiedIdentity o info ∧
    time ≤ c.started + maxAnswerAge o info

def Admitted (o : AuthOptions) (calls : List VerifyCall) (md : Metadata) (identity : APIIdentity)
    (time : Int) : Prop :=
  (∃ token ∈ o.authTokens, credentialFromMetadata md = some token) ∨
  (credentialFromMetadata md = none ∧ o.allowInsecure = true ∧ o.authTokens = []) ∨
  ∃ c ∈ calls, credentialFromMetadata md = some c.presented ∧ Grants o c identity time

section Invariant

structure Leads (sha256 : String → String) (w : World) (k : Nat) (presented : String) (now : Int)
    (call : Nat) (response : Option Response) : Prop where
  inFlight : w.resolver.inFlight.lookup (sha256 presented) = some call
  made : ∃ c, w.calls[call]? = some c ∧ c.leader = k ∧ c.presented = presented ∧
    now ≤ c.started ∧ c.response = response

def Standing (o : AuthOptions) (sha256 : String → String) (w : World) (k : Nat) (q : Request) :
    Prop :=
  match q.pc with
  | .start | .rejected _ => True
  | .gate presented | .verify presented => credentialFromMetadata q.metadata = some presented
  | .lookup presented now => credentialFromMetadata q.metadata = some presented ∧ now ≤ w.clock
  | .calling presented now call =>
    credentialFromMetadata q.metadata = some presented ∧ Leads sha256 w k presented now call none
  | .answered presented now call response =>
    credentialFromMetadata q.metadata = some presented ∧
      Leads sha256 w k presented now call (some response)
  | .waiting presented call =>
    credentialFromMetadata q.metadata = some presented ∧
      ∃ c, w.calls[call]? = some c ∧ c.presented = presented
  | .invoked identity time => Admitted o w.calls q.metadata identity time ∧ identity.caps ⊆ o.ceiling

structure WorldSound (o : AuthOptions) (sha256 : String → String) (w : World) : Prop where
  capacity : w.resolver.entries.keys.card ≤ maxAuthCacheEntries
  entries : ∀ key e identity, w.resolver.entries.lookup key = some e → e.verdict = .ok identity →
    ∃ c ∈ w.calls, sha256 c.presented = key ∧ Grants o c identity e.expireAt
  inFlight : ∀ key call, w.resolver.inFlight.lookup key = some call →
    ∃ c, w.calls[call]? = some c ∧ sha256 c.presented = key
  outcomes : ∀ c ∈ w.calls, ∀ identity, c.outcome = some (.ok identity) →
    ∃ info, c.response = some (.allow info) ∧ identity = verifiedIdentity o info

structure Sound (o : AuthOptions) (sha256 : String → String) (s : State) : Prop where
  world : WorldSound o sha256 s.world
  requests : ∀ k q, s.requests[k]? = some q → Standing o sha256 s.world k q

structure Extends (c d : VerifyCall) : Prop where
  presented : d.presented = c.presented
  started : d.started = c.started
  response : ∀ r, c.response = some r → d.response = some r

structure Kept (k : Nat) (w w' : World) : Prop where
  clock : w.clock ≤ w'.clock
  calls : ∀ (j : Nat) c, w.calls[j]? = some c → ∃ d, w'.calls[j]? = some d ∧ Extends c d
  others : ∀ (j : Nat) c, w.calls[j]? = some c → c.leader ≠ k → w'.calls[j]? = some c
  inFlight : ∀ key (j : Nat) c, w.resolver.inFlight.lookup key = some j → w.calls[j]? = some c →
    c.leader ≠ k → w'.resolver.inFlight.lookup key = some j

variable {w w' : World} {k : Nat}

theorem Extends.refl (c : VerifyCall) : Extends c c := ⟨rfl, rfl, fun _ h => h⟩

theorem Grants.mono {d : VerifyCall} (h : Grants o c identity time) (hext : Extends c d) :
    Grants o d identity time := by
  obtain ⟨info, hresponse, hidentity, htime⟩ := h
  exact ⟨info, hext.response _ hresponse, hidentity, by rw [hext.started]; exact htime⟩

theorem Kept.mem (h : Kept k w w') (hc : c ∈ w.calls) :
    ∃ d ∈ w'.calls, Extends c d := by
  obtain ⟨j, hj⟩ := mem_iff_getElem?.mp hc
  obtain ⟨d, hd, hext⟩ := h.calls j c hj
  exact ⟨d, mem_of_getElem? hd, hext⟩

theorem Kept.of_eq (hclock : w.clock ≤ w'.clock) (hcalls : w'.calls = w.calls)
    (hflight : w'.resolver.inFlight = w.resolver.inFlight) : Kept k w w' where
  clock := hclock
  calls := fun j c hc => ⟨c, by rwa [hcalls], .refl c⟩
  others := fun j c hc _ => by rwa [hcalls]
  inFlight := fun key j c hj _ _ => by rwa [hflight]

theorem Admitted.kept {md : Metadata} (h : Admitted o w.calls md identity time)
    (hkept : Kept k w w') :
    Admitted o w'.calls md identity time := by
  rcases h with h | h | ⟨c, hc, hcred, hgrants⟩
  · exact .inl h
  · exact .inr (.inl h)
  · obtain ⟨d, hd, hext⟩ := hkept.mem hc
    exact .inr (.inr ⟨d, hd, by rw [hext.presented]; exact hcred, hgrants.mono hext⟩)

theorem Leads.kept {presented : String} {call : Nat} {response : Option Response}
    (h : Leads sha256 w i presented now call response) (hne : i ≠ k) (hkept : Kept k w w') :
    Leads sha256 w' i presented now call response := by
  obtain ⟨c, hc, rfl, hrest⟩ := h.made
  exact ⟨hkept.inFlight _ _ c h.inFlight hc hne, c, hkept.others _ c hc hne, rfl, hrest⟩

theorem Standing.kept (h : Standing o sha256 w i q) (hne : i ≠ k) (hkept : Kept k w w') :
    Standing o sha256 w' i q := by
  unfold Standing at h ⊢
  split at h
  · trivial
  · trivial
  · exact h
  · exact h
  · exact ⟨h.1, h.2.trans hkept.clock⟩
  · exact ⟨h.1, h.2.kept hne hkept⟩
  · exact ⟨h.1, h.2.kept hne hkept⟩
  · obtain ⟨hcred, c, hc, hpresented⟩ := h
    obtain ⟨d, hd, hext⟩ := hkept.calls _ c hc
    exact ⟨hcred, d, hd, hext.presented.trans hpresented⟩
  · exact ⟨h.1.kept hkept, h.2⟩

end Invariant

section Resolver
variable {r r' : Resolver} {key : String}
variable {m : Finmap fun _ : String => CacheEntry} {found : Found}

@[simp] theorem entries_recordProxyErrorLocked (clock : Int) :
    (r.recordProxyErrorLocked clock).entries = r.entries := by
  unfold Resolver.recordProxyErrorLocked
  split_ifs <;> rfl

@[simp] theorem inFlight_recordProxyErrorLocked (clock : Int) :
    (r.recordProxyErrorLocked clock).inFlight = r.inFlight := by
  unfold Resolver.recordProxyErrorLocked
  split_ifs <;> rfl

theorem card_keys_insert (m : Finmap fun _ : String => CacheEntry) (key : String) (e : CacheEntry) :
    (m.insert key e).keys.card ≤ m.keys.card + 1 := by
  rw [keys_insert]
  exact Finset.card_insert_le _ _

theorem card_keys_le {m' : Finmap fun _ : String => CacheEntry}
    (h : ∀ x f, m'.lookup x = some f → m.lookup x = some f) : m'.keys.card ≤ m.keys.card := by
  apply Finset.card_le_card
  intro x hx
  obtain ⟨f, hf⟩ := mem_iff.mp (Finmap.mem_keys.mp hx)
  exact Finmap.mem_keys.mpr (mem_of_lookup_eq_some (h x f hf))

theorem storeLocked_spec {e : CacheEntry} (h : r.storeLocked key e evict = some r')
    (hcap : r.entries.keys.card ≤ maxAuthCacheEntries) :
    r'.inFlight = r.inFlight ∧ r'.entries.keys.card ≤ maxAuthCacheEntries ∧
      ∀ x f, r'.entries.lookup x = some f → (x = key ∧ f = e) ∨ r.entries.lookup x = some f := by
  unfold Resolver.storeLocked at h
  split_ifs at h with hfull hmem
  · cases h
    refine ⟨rfl, ?_, ?_⟩
    · have hpos : 0 < r.entries.keys.card := Finset.card_pos.mpr ⟨evict, Finmap.mem_keys.mpr hmem⟩
      have herase : (r.entries.erase evict).keys.card = r.entries.keys.card - 1 := by
        have hkeys : (r.entries.erase evict).keys = r.entries.keys.erase evict := by
          ext x
          simp [Finmap.mem_keys]
        rw [hkeys, Finset.card_erase_of_mem (Finmap.mem_keys.mpr hmem)]
      have hinsert := card_keys_insert (r.entries.erase evict) key e
      show ((r.entries.erase evict).insert key e).keys.card ≤ maxAuthCacheEntries
      omega
    · exact forall_lookup_insert (.inl ⟨rfl, rfl⟩) (fun _ _ hf => .inr (lookup_of_erase hf))
  · cases h
    refine ⟨rfl, ?_, forall_lookup_insert (.inl ⟨rfl, rfl⟩) fun _ _ => .inr⟩
    have hinsert := card_keys_insert r.entries key e
    show (r.entries.insert key e).keys.card ≤ maxAuthCacheEntries
    omega

def Finds (r : Resolver) (key : String) (now : Int) : Found → Prop
  | .hit identity => ∃ e, r.entries.lookup key = some e ∧ e.verdict = .ok identity ∧ now < e.expireAt
  | .attach call => r.inFlight.lookup key = some call
  | .lead => r.inFlight.lookup key = none
  | .refused _ => True

theorem join_spec (now : Int) (h : r.join key = (r', found)) : r' = r ∧ Finds r key now found := by
  unfold Resolver.join at h
  split at h
  · rename_i call hcall
    cases h
    exact ⟨rfl, hcall⟩
  · rename_i hnone
    cases h
    exact ⟨rfl, hnone⟩

theorem uncached_spec (h : r.uncached key now = (r', found)) :
    r'.inFlight = r.inFlight ∧ r'.entries = r.entries ∧ Finds r key now found := by
  unfold Resolver.uncached at h
  split at h
  · split_ifs at h
    · cases h
      exact ⟨rfl, rfl, trivial⟩
    · obtain ⟨rfl, hfinds⟩ := join_spec now h
      refine ⟨rfl, rfl, ?_⟩
      cases found <;> exact hfinds
  · obtain ⟨rfl, hfinds⟩ := join_spec now h
    exact ⟨rfl, rfl, hfinds⟩

theorem lookup_spec (h : r.lookup key now clock = (r', found)) :
    r'.inFlight = r.inFlight ∧
      (∀ x f, r'.entries.lookup x = some f → r.entries.lookup x = some f) ∧
      Finds r key now found := by
  unfold Resolver.lookup at h
  split at h
  · rename_i e he
    split_ifs at h with hfresh
    · unfold Resolver.cached at h
      split at h
      · rename_i identity hverdict
        cases h
        exact ⟨rfl, fun _ _ hf => hf, e, he, hverdict, hfresh⟩
      · cases h
        simp [Finds]
      · cases h
        simp [Finds]
    · obtain ⟨hflight, hentries, hfinds⟩ := uncached_spec h
      refine ⟨hflight, fun x f hf => lookup_of_erase (hentries ▸ hf), ?_⟩
      cases found with
      | hit identity =>
        obtain ⟨f, hf, -⟩ := hfinds
        simp at hf
      | attach call | lead => exact hfinds
      | refused err => trivial
  · obtain ⟨hflight, hentries, hfinds⟩ := uncached_spec h
    exact ⟨hflight, fun x f hf => hentries ▸ hf, hfinds⟩

theorem settle_spec {response : Response} (h : r.settle o key now clock response evict = some r')
    (hcap : r.entries.keys.card ≤ maxAuthCacheEntries) :
    r'.inFlight = r.inFlight.erase key ∧ r'.entries.keys.card ≤ maxAuthCacheEntries ∧
      ∀ x f, r'.entries.lookup x = some f →
        (x = key ∧ f = ⟨response.verdict o, now + response.ttl o⟩) ∨ r.entries.lookup x = some f := by
  unfold Resolver.settle at h
  cases response with
  | unavailable => simpa using storeLocked_spec h (by simpa using hcap)
  | denied | allow info => exact storeLocked_spec h hcap

end Resolver

section Steps
variable {w w' : World} {k call : Nat}
variable {pc : Pc} {presented : String} {r : Resolver}

theorem standing_intercept (md : Metadata) (assigned : Bool) :
    Standing o sha256 w k ⟨md, intercept o md assigned w.clock⟩ := by
  unfold intercept
  cases hcred : credentialFromMetadata md with
  | none =>
    simp only
    split_ifs with htokens hinsecure
    · trivial
    · exact ⟨.inr (.inl ⟨hcred, hinsecure, not_not.mp htokens⟩), Finset.Subset.refl _⟩
    · trivial
  | some presented =>
    simp only
    split_ifs with htoken
    · obtain ⟨token, hmem, heq⟩ := any_eq_true.mp htoken
      obtain rfl : token = presented := of_decide_eq_true heq
      exact ⟨.inl ⟨token, hmem, hcred⟩, Finset.Subset.refl _⟩
    · trivial
    · exact hcred
    · exact hcred

theorem caps_of_grants (h : Grants o c identity time) : identity.caps ⊆ o.ceiling := by
  obtain ⟨info, -, rfl, -⟩ := h
  exact caps_verifiedIdentity

theorem standing_of_grants (hc : c ∈ w.calls)
    (hcred : credentialFromMetadata q.metadata = some c.presented) (h : Grants o c identity time) :
    Standing o sha256 w k { q with pc := .invoked identity time } :=
  ⟨.inr (.inr ⟨c, hc, hcred, h⟩), caps_of_grants h⟩

theorem kept_modify {f : VerifyCall → VerifyCall} (hc : w.calls[call]? = some c)
    (hleader : c.leader = k) (hext : Extends c (f c))
    (hflight : ∀ key j, j ≠ call → w.resolver.inFlight.lookup key = some j →
      r.inFlight.lookup key = some j) :
    Kept k w { w with resolver := r, calls := w.calls.modify call f } where
  clock := le_rfl
  calls := by
    intro j d hd
    by_cases hj : j = call
    · subst hj
      cases hc.symm.trans hd
      exact ⟨f c, by simp [hc], hext⟩
    · exact ⟨d, by simp [Ne.symm hj, hd], .refl d⟩
  others := by
    intro j d hd hne
    have hj : j ≠ call := by
      rintro rfl
      cases hc.symm.trans hd
      exact hne hleader
    simp [Ne.symm hj, hd]
  inFlight := by
    intro key j d hj hd hne
    refine hflight key j ?_ hj
    rintro rfl
    cases hc.symm.trans hd
    exact hne hleader

theorem mem_modify {d : VerifyCall} {f : VerifyCall → VerifyCall} (hc : w.calls[call]? = some c)
    (hd : d ∈ w.calls.modify call f) : d = f c ∨ d ∈ w.calls := by
  obtain ⟨j, hj⟩ := mem_iff_getElem?.mp hd
  rw [getElem?_modify] at hj
  split_ifs at hj with heq
  · subst heq
    rw [hc] at hj
    exact .inl (some.inj hj).symm
  · exact .inr (mem_of_getElem? (by simpa using hj))

theorem deadline_eq {info : APIKeyInfo} (h : c.response = some (.allow info)) :
    c.deadline o = some (c.started + maxAnswerAge o info) := by
  simp [VerifyCall.deadline, h]

section
variable (h : WorldSound o sha256 w)
include h

theorem WorldSound.mono (hkept : Kept k w w')
    (hcap : w'.resolver.entries.keys.card ≤ maxAuthCacheEntries)
    (hentries : ∀ key e identity, w'.resolver.entries.lookup key = some e →
      e.verdict = .ok identity → w.resolver.entries.lookup key = some e ∨
        ∃ c ∈ w.calls, sha256 c.presented = key ∧ Grants o c identity e.expireAt)
    (hflight : ∀ key call, w'.resolver.inFlight.lookup key = some call →
      w.resolver.inFlight.lookup key = some call ∨
        ∃ c, w'.calls[call]? = some c ∧ sha256 c.presented = key)
    (houtcomes : ∀ c ∈ w'.calls, ∀ identity, c.outcome = some (.ok identity) →
      ∃ info, c.response = some (.allow info) ∧ identity = verifiedIdentity o info) :
    WorldSound o sha256 w' where
  capacity := hcap
  entries := by
    intro key e identity he hverdict
    have hold : ∃ c ∈ w.calls, sha256 c.presented = key ∧ Grants o c identity e.expireAt := by
      rcases hentries key e identity he hverdict with hold | hnew
      · exact h.entries key e identity hold hverdict
      · exact hnew
    obtain ⟨c, hc, hkey, hgrants⟩ := hold
    obtain ⟨d, hd, hext⟩ := hkept.mem hc
    exact ⟨d, hd, by rw [hext.presented, hkey], hgrants.mono hext⟩
  inFlight := by
    intro key call hcall
    rcases hflight key call hcall with hold | hnew
    · obtain ⟨c, hc, hkey⟩ := h.inFlight key call hold
      obtain ⟨d, hd, hext⟩ := hkept.calls call c hc
      exact ⟨d, hd, by rw [hext.presented, hkey]⟩
    · exact hnew
  outcomes := houtcomes

structure Advanced (o : AuthOptions) (sha256 : String → String) (w : World) (k : Nat) (q : Request)
    (w' : World) (pc : Pc) : Prop where
  world : WorldSound o sha256 w'
  kept : Kept k w w'
  standing : Standing o sha256 w' k { q with pc := pc }

theorem WorldSound.unchanged
    (hstanding : Standing o sha256 w k { q with pc := pc }) : Advanced o sha256 w k q w pc :=
  ⟨h, .of_eq le_rfl rfl rfl, hstanding⟩

theorem advanced_gate {expireAt : Int}
    (hstore : w.resolver.storeLocked (sha256 presented) ⟨.error .keyRejected, expireAt⟩ evict =
      some r) (message : String) :
    Advanced o sha256 w k q { w with resolver := r } (.rejected message) := by
  obtain ⟨hflight, hcap, hentries⟩ := storeLocked_spec hstore h.capacity
  have hkept : Kept k w { w with resolver := r } := .of_eq le_rfl rfl hflight
  refine ⟨h.mono hkept hcap ?_ ?_ h.outcomes, hkept, trivial⟩
  · intro key e identity he hverdict
    rcases hentries key e he with ⟨-, rfl⟩ | hold
    · cases hverdict
    · exact .inl hold
  · intro key call hcall
    exact .inl (hflight ▸ hcall)

theorem advanced_found {found : Found}
    (hlookup : w.resolver.lookup (sha256 presented) now clock = (r, found))
    (hstanding : Standing o sha256 w k { q with pc := pc }) :
    Advanced o sha256 w k q { w with resolver := r } pc := by
  obtain ⟨hflight, hentries, -⟩ := lookup_spec hlookup
  have hkept : ∀ i, Kept i w { w with resolver := r } := fun i => .of_eq le_rfl rfl hflight
  refine ⟨h.mono (hkept k) ((card_keys_le hentries).trans h.capacity) ?_ ?_ h.outcomes, hkept k,
    hstanding.kept (Nat.succ_ne_self k).symm (hkept _)⟩
  · intro key e identity he _
    exact .inl (hentries key e he)
  · intro key call hcall
    exact .inl (hflight ▸ hcall)

theorem advanced_wake {verdict : Verdict}
    (hstanding : Standing o sha256 w k { q with pc := .waiting presented call })
    (htimely : Timely o sha256 w (.waiting presented call))
    (houtcome : w.calls[call]?.bind VerifyCall.outcome = some verdict) :
    Advanced o sha256 w k q w (conclude verdict w.clock) := by
  obtain ⟨hcred, c, hc, hpresented⟩ := hstanding
  have hverdict : c.outcome = some verdict := by simpa [hc] using houtcome
  apply h.unchanged
  cases verdict with
  | error err => trivial
  | ok identity =>
    obtain ⟨info, hresponse, hidentity⟩ := h.outcomes c (mem_of_getElem? hc) identity hverdict
    have htime : w.clock ≤ c.started + maxAnswerAge o info :=
      htimely c hc _ (deadline_eq hresponse)
    exact standing_of_grants (mem_of_getElem? hc) (by rw [hpresented]; exact hcred)
      ⟨info, hresponse, hidentity, htime⟩

variable (hcred : credentialFromMetadata q.metadata = some presented)
include hcred

theorem advanced_hit (hinj : Function.Injective sha256)
    (htimely : Timely o sha256 w (.lookup presented now))
    (hlookup : w.resolver.lookup (sha256 presented) now w.clock = (r, .hit identity)) :
    Advanced o sha256 w k q { w with resolver := r } (.invoked identity w.clock) := by
  obtain ⟨-, -, e, he, hverdict, hfresh⟩ := lookup_spec hlookup
  obtain ⟨c, hc, hkey, info, hresponse, hidentity, htime⟩ := h.entries _ e identity he hverdict
  have hclock : w.clock < e.expireAt := htimely e he hfresh
  refine advanced_found h hlookup (standing_of_grants hc ?_ ⟨info, hresponse, hidentity, ?_⟩)
  · rw [hinj hkey, hcred]
  · omega

theorem advanced_attach (hinj : Function.Injective sha256)
    (hlookup : w.resolver.lookup (sha256 presented) now w.clock = (r, .attach call)) :
    Advanced o sha256 w k q { w with resolver := r } (.waiting presented call) := by
  obtain ⟨-, -, hcall⟩ := lookup_spec hlookup
  obtain ⟨c, hc, hkey⟩ := h.inFlight _ call hcall
  exact advanced_found h hlookup ⟨hcred, c, hc, hinj hkey⟩

theorem advanced_lead (hnow : now ≤ w.clock)
    (hlookup : w.resolver.lookup (sha256 presented) now w.clock = (r, .lead)) :
    Advanced o sha256 w k q { w with
        resolver := { r with inFlight := r.inFlight.insert (sha256 presented) w.calls.length }
        calls := w.calls ++ [⟨k, presented, w.clock, none, none⟩] }
      (.calling presented now w.calls.length) := by
  obtain ⟨hflight, hentries, hnone⟩ := lookup_spec hlookup
  have hcalls : ∀ (j : Nat) c, w.calls[j]? = some c →
      (w.calls ++ [⟨k, presented, w.clock, none, none⟩])[j]? = some c := by
    intro j c hc
    rw [List.getElem?_append_left (List.getElem?_eq_some_iff.mp hc).1, hc]
  have hlast : (w.calls ++ [⟨k, presented, w.clock, none, none⟩])[w.calls.length]? =
      some ⟨k, presented, w.clock, none, none⟩ := by simp
  have hkept : Kept k w { w with
      resolver := { r with inFlight := r.inFlight.insert (sha256 presented) w.calls.length }
      calls := w.calls ++ [⟨k, presented, w.clock, none, none⟩] } := by
    refine ⟨le_rfl, fun j c hc => ⟨c, hcalls j c hc, .refl c⟩, fun j c hc _ => hcalls j c hc, ?_⟩
    intro key j c hj _ _
    have hne : key ≠ sha256 presented := by
      rintro rfl
      rw [show w.resolver.inFlight.lookup (sha256 presented) = none from hnone] at hj
      cases hj
    rw [lookup_insert_of_ne _ hne, hflight, hj]
  refine ⟨h.mono hkept ((card_keys_le hentries).trans h.capacity) ?_ ?_ ?_, hkept, hcred,
    lookup_insert _, _, hlast, rfl, rfl, hnow, rfl⟩
  · intro key e identity he _
    exact .inl (hentries key e he)
  · refine forall_lookup_insert (.inr ⟨_, hlast, rfl⟩) fun key call hcall => ?_
    rw [hflight] at hcall
    exact .inl hcall
  · exact forall_mem_snoc h.outcomes nofun

theorem advanced_answer (response : Response) (hleads : Leads sha256 w k presented now call none) :
    Advanced o sha256 w k q { w with calls := w.calls.modify call (·.answer response) }
      (.answered presented now call response) := by
  obtain ⟨c, hc, hleader, hpresented, hnow, hresponse⟩ := hleads.made
  have hkept : Kept k w { w with calls := w.calls.modify call (·.answer response) } :=
    kept_modify hc hleader ⟨rfl, rfl, by simp [hresponse]⟩ fun _ _ _ hj => hj
  refine ⟨h.mono hkept h.capacity (fun _ _ _ he _ => .inl he) (fun _ _ hj => .inl hj) ?_, hkept,
    hcred, hleads.inFlight, c.answer response, by simp [hc], hleader, hpresented, hnow, rfl⟩
  intro d hd identity houtcome
  rcases mem_modify hc hd with rfl | hd
  · -- A call that is not answered has no outcome.
    obtain ⟨info, hinfo, -⟩ := h.outcomes c (mem_of_getElem? hc) identity houtcome
    rw [hresponse] at hinfo
    cases hinfo
  · exact h.outcomes d hd identity houtcome

theorem advanced_settle {response : Response}
    (hleads : Leads sha256 w k presented now call (some response))
    (htimely : Timely o sha256 w (.answered presented now call response))
    (hsettle : w.resolver.settle o (sha256 presented) now w.clock response evict = some r) :
    Advanced o sha256 w k q { w with
        resolver := r
        calls := w.calls.modify call (·.close (response.verdict o)) }
      (conclude (response.verdict o) w.clock) := by
  obtain ⟨c, hc, hleader, hpresented, hnow, hresponse⟩ := hleads.made
  obtain ⟨hflight, hcap, hentries⟩ := settle_spec hsettle h.capacity
  have hkept : Kept k w { w with
      resolver := r
      calls := w.calls.modify call (·.close (response.verdict o)) } := by
    refine kept_modify hc hleader ⟨rfl, rfl, fun _ hr => hr⟩ ?_
    intro key j hne hj
    have hkey : key ≠ sha256 presented := by
      rintro rfl
      exact hne (some.inj (hj.symm.trans hleads.inFlight))
    rw [hflight, lookup_erase_ne hkey, hj]
  refine ⟨h.mono hkept hcap ?_ ?_ ?_, hkept, ?_⟩
  · intro key e identity he hverdict
    rcases hentries key e he with ⟨rfl, rfl⟩ | hold
    · right
      cases response with
      | unavailable | denied => cases hverdict
      | allow info =>
        refine ⟨c, mem_of_getElem? hc, by rw [hpresented], info, hresponse, ?_, ?_⟩
        · exact (Except.ok.inj hverdict).symm
        · have hle : positiveTTL o.ttl info.maxAgeSeconds ≤ maxAnswerAge o info := positiveTTL_le
          show now + positiveTTL o.ttl info.maxAgeSeconds ≤ _
          omega
    · exact .inl hold
  · intro key j hj
    exact .inl (lookup_of_erase (hflight ▸ hj))
  · intro d hd identity houtcome
    rcases mem_modify hc hd with rfl | hd
    · cases response with
      | unavailable | denied => cases houtcome
      | allow info => exact ⟨info, hresponse, (Except.ok.inj (some.inj houtcome)).symm⟩
    · exact h.outcomes d hd identity houtcome
  · cases response with
    | unavailable => trivial
    | denied => trivial
    | allow info =>
      have htime : w.clock ≤ c.started + maxAnswerAge o info :=
        htimely c hc _ (deadline_eq hresponse)
      obtain ⟨d, hd, hext⟩ := hkept.mem (mem_of_getElem? hc)
      refine standing_of_grants hd ?_ (Grants.mono ⟨info, hresponse, rfl, htime⟩ hext)
      rw [hext.presented, hpresented, hcred]

omit hcred in
theorem advance_sound {env : Env} (hinj : Function.Injective sha256)
    (hstanding : Standing o sha256 w k q) (htimely : Timely o sha256 w q.pc)
    (hadvance : advance o sha256 w k q env = some (w', pc)) :
    Advanced o sha256 w k q w' pc := by
  obtain ⟨md, pc₀⟩ := q
  cases pc₀ with
  | start =>
    cases hadvance
    exact h.unchanged (standing_intercept md env.assigned)
  | gate presented =>
    obtain ⟨r, hr, heq⟩ := map_eq_some_iff.mp hadvance
    cases heq
    exact advanced_gate h hr _
  | verify presented =>
    cases hadvance
    exact h.unchanged ⟨hstanding, le_rfl⟩
  | lookup presented now =>
    obtain ⟨hcred, hnow⟩ := hstanding
    simp only [advance] at hadvance
    split at hadvance <;> rename_i hlookup <;>
      cases hadvance
    · exact advanced_hit h hcred hinj htimely hlookup
    · exact advanced_found h hlookup trivial
    · exact advanced_attach h hcred hinj hlookup
    · exact advanced_lead h hcred hnow hlookup
  | calling presented now call =>
    obtain ⟨hcred, hleads⟩ := hstanding
    cases hadvance
    exact advanced_answer h hcred env.response hleads
  | answered presented now call response =>
    obtain ⟨hcred, hleads⟩ := hstanding
    obtain ⟨r, hr, heq⟩ := map_eq_some_iff.mp hadvance
    cases heq
    exact advanced_settle h hcred hleads htimely hr
  | waiting presented call =>
    simp only [advance] at hadvance
    split_ifs at hadvance
    · cases hadvance
      exact h.unchanged trivial
    · obtain ⟨verdict, hverdict, heq⟩ := map_eq_some_iff.mp hadvance
      cases heq
      exact advanced_wake h hstanding htimely hverdict
  | invoked identity time | rejected message => cases hadvance

end

theorem Sound.step {s t : State} {a : Action} (hinj : Function.Injective sha256)
    (h : Sound o sha256 s) (hprompt : Prompt o sha256 s a) (hstep : step o sha256 s a = some t) :
    Sound o sha256 t := by
  cases a with
  | arrive md =>
    cases hstep
    refine ⟨h.world, ?_⟩
    intro k q hq
    rw [getElem?_snoc] at hq
    split_ifs at hq
    · cases hq
      trivial
    · exact h.requests k q hq
  | tick elapsed =>
    cases hstep
    have hkept : ∀ i, Kept i s.world { s.world with clock := s.world.clock + elapsed } :=
      fun i => .of_eq (by show s.world.clock ≤ s.world.clock + elapsed; omega) rfl rfl
    refine ⟨⟨h.world.capacity, h.world.entries, h.world.inFlight, h.world.outcomes⟩, ?_⟩
    intro k q hq
    exact (h.requests k q hq).kept (Nat.succ_ne_self k).symm (hkept _)
  | request k env =>
    obtain ⟨q, ⟨w', pc⟩, hq, hpc, rfl⟩ := bind_map_eq_some hstep
    have hadvanced := advance_sound h.world hinj (h.requests k q hq) (hprompt q hq) hpc
    refine ⟨hadvanced.world, ?_⟩
    intro i p hp
    rcases Locks.getElem?_set_cases hp with ⟨rfl, rfl⟩ | ⟨hi, hp⟩
    · exact hadvanced.standing
    · exact (h.requests i p hp).kept hi hadvanced.kept

theorem sound_newAPIAuthResolver (clock : Int) : Sound o sha256 (newAPIAuthResolver clock) where
  world := {
    capacity := Nat.zero_le _
    entries := nofun
    inFlight := nofun
    outcomes := fun _ hc => by cases hc }
  requests := nofun

theorem Sound.calling_unique {s : State} (h : Sound o sha256 s) {j : Nat} {p : Request} {now' : Int}
    {call' : Nat} (hp : s.requests[i]? = some p) (hq : s.requests[j]? = some q)
    (hppc : p.pc = .calling presented now call) (hqpc : q.pc = .calling presented now' call') :
    i = j := by
  have hi := h.requests i p hp
  have hj := h.requests j q hq
  simp only [Standing, hppc] at hi
  simp only [Standing, hqpc] at hj
  obtain ⟨-, hflight, c, hc, rfl, -⟩ := hi
  obtain ⟨-, hflight', d, hd, rfl, -⟩ := hj
  cases hflight.symm.trans hflight'
  cases hc.symm.trans hd
  rfl

/-- If no request is held up, a handler is invoked only for a static token, for insecure access
without a credential, or for a credential the proxy has accepted, no longer after the call to it was
started than its answer may be used. The identity has no capability above the ceiling, the cache
stays within its capacity, and there is one call for a credential at a time. -/
theorem handler_authenticated {clock : Int} {as : List Action} {s : State}
    (hinj : Function.Injective sha256) (hrun : run o sha256 (newAPIAuthResolver clock) as = some s)
    (hprompt : Transition.Along (step o sha256) (Prompt o sha256) (newAPIAuthResolver clock) as) :
    (∀ q ∈ s.requests, ∀ identity time, q.pc = .invoked identity time →
      Admitted o s.world.calls q.metadata identity time ∧ identity.caps ⊆ o.ceiling) ∧
    s.world.resolver.entries.keys.card ≤ maxAuthCacheEntries ∧
    ∀ (i j : Nat) p q presented now now' call call', s.requests[i]? = some p →
      s.requests[j]? = some q → p.pc = .calling presented now call →
      q.pc = .calling presented now' call' → i = j := by
  have hsound : Sound o sha256 s := Transition.invariant_along (sound_newAPIAuthResolver clock)
    (fun s a t hs hok => hs.step hinj hok) hrun hprompt
  refine ⟨?_, hsound.world.capacity, ?_⟩
  · intro q hq identity time hpc
    obtain ⟨k, hk⟩ := mem_iff_getElem?.mp hq
    have hstanding := hsound.requests k q hk
    simpa only [Standing, hpc] using hstanding
  · intro i j p q presented now now' call call' hp hq hppc hqpc
    exact hsound.calling_unique hp hq hppc hqpc

def keyed (key : String) : Metadata := ⟨none, some key⟩

def accepting (maxAgeSeconds : Int64) : Env :=
  ⟨true, "", .allow ⟨"k1", ["a"], ["history.read"], maxAgeSeconds⟩, false⟩

/-- A leader, a follower, a request that finds the cached answer half a minute later, a static token
and a request without a credential. -/
def promptRequests : List Action :=
  [.arrive (keyed "0123456789abcdefghij"), .arrive ⟨some "Bearer 0123456789abcdefghij", none⟩,
    .request 0 (accepting 60), .request 0 (accepting 60), .request 0 (accepting 60),
    .request 1 (accepting 60), .request 1 (accepting 60), .tick 100, .request 1 (accepting 60),
    .request 0 (accepting 60), .request 0 (accepting 60), .request 1 (accepting 60),
    .tick 29000000000, .arrive (keyed "0123456789abcdefghij"), .request 2 (accepting 60),
    .request 2 (accepting 60), .request 2 (accepting 60), .arrive (keyed "t"),
    .request 3 (accepting 60), .arrive ⟨none, none⟩, .request 4 (accepting 60)]

def promptOptions : AuthOptions := ⟨["t"], true, {.historyRead}, 0⟩

theorem handler_authenticated_prompt :
    ∃ s q identity time, run promptOptions id (newAPIAuthResolver 0) promptRequests = some s ∧
      s.requests[2]? = some q ∧ q.pc = .invoked identity time ∧
      Admitted promptOptions s.world.calls q.metadata identity time := by
  obtain ⟨s, hs, hpc⟩ := bind_eq_some_iff.mp
    (show (run promptOptions id (newAPIAuthResolver 0) promptRequests).bind
        (fun s => s.requests[2]?.map Request.pc) =
      some (.invoked ⟨"k1", ["a"], {.historyRead}⟩ 29000000100) by decide +kernel)
  obtain ⟨q, hq, hpc⟩ := map_eq_some_iff.mp hpc
  exact ⟨s, q, _, _, hs, hq, hpc, ((handler_authenticated Function.injective_id hs
    (by decide +kernel)).1 q (mem_of_getElem? hq) _ _ hpc).1⟩

/-- The proxy takes five seconds to answer, and says that its answer is good for one second. A
request that arrives shortly before the answer attaches to the call, and its handler is invoked. -/
def slowRequests : List Action :=
  [.arrive (keyed "0123456789abcdefghij"), .request 0 (accepting 1), .request 0 (accepting 1),
    .request 0 (accepting 1), .tick 5000000000, .arrive (keyed "0123456789abcdefghij"),
    .request 1 (accepting 1), .request 1 (accepting 1), .request 1 (accepting 1),
    .request 0 (accepting 1), .request 0 (accepting 1), .request 1 (accepting 1)]

theorem handler_authenticated_slow :
    ∃ s q identity time, run ⟨[], false, ∅, 0⟩ id (newAPIAuthResolver 0) slowRequests = some s ∧
      s.requests[1]? = some q ∧ q.pc = .invoked identity time ∧
      ¬ Admitted ⟨[], false, ∅, 0⟩ s.world.calls q.metadata identity time := by
  let o : AuthOptions := ⟨[], false, ∅, 0⟩
  let info : APIKeyInfo := ⟨"k1", ["a"], ["history.read"], 1⟩
  obtain ⟨s, hs, heq⟩ := map_eq_some_iff.mp
    (show (run o id (newAPIAuthResolver 0) slowRequests).map
        (fun s => (s.requests[1]?, s.world.calls)) =
      some (some ⟨keyed "0123456789abcdefghij", .invoked (verifiedIdentity o info) 5000000000⟩,
        [⟨0, "0123456789abcdefghij", 0, some (.allow info), some (.ok (verifiedIdentity o info))⟩])
      by decide +kernel)
  obtain ⟨hq, hcalls⟩ := Prod.mk.inj heq
  refine ⟨s, _, _, _, hs, hq, rfl, ?_⟩
  rw [hcalls]
  rintro (⟨token, htoken, -⟩ | ⟨-, hinsecure, -⟩ | ⟨c, hc, -, info', hresponse, -, htime⟩)
  · cases htoken
  · cases hinsecure
  · obtain rfl := mem_singleton.mp hc
    obtain rfl : info = info' := Response.allow.inj (some.inj hresponse)
    exact absurd htime (by decide)

end Steps

end MessageLoop.ServerAPI.Auth
