import MessageLoop.Lib.Locks
import MessageLoop.Lib.Transition
import MessageLoop.Session.Hub

/-!
Concurrent local resumes of one session (`internal/session/takeover.go`).

Any number of connections run `takeoverBy` on the same session. Detach, the read of the shell's
attachment, Attach and the parts of Close are separate critical sections; all transports are
healthy, so the probe of `Attach` succeeds.
-/

namespace MessageLoop.Takeover

open List Option Session

inductive Progress where
  | detach
  | readTemp
  | attach (handoff : Attachment)
  | demote
  | close
  | unregister
  | returned (ok : Bool)
  deriving DecidableEq, Repr

structure Call where
  shell : Session
  progress : Progress
  deriving DecidableEq

open Call

/-- The resumed session is the object `existing`; `nextID` names fresh attachment objects. -/
structure State where
  sessionID : String
  existing : SessionRef
  resumed : Session
  hub : Hub
  nextID : Nat
  calls : List Call

def handoffAttachment (id : Nat) (att : Attachment) : Attachment :=
  { att with id := id }

def State.start (existing : SessionRef) (resumed : Session) (hub : Hub) (nextID : Nat)
    (shells : List Session) : State where
  sessionID := resumed.session
  existing := existing
  resumed := resumed
  hub := hub
  nextID := nextID
  calls := shells.map (⟨·, .detach⟩)

def State.setCall (s : State) (k : Nat) (c : Call) (progress : Progress) : State :=
  { s with calls := s.calls.set k { c with progress := progress } }

/-- One critical section of `takeoverBy`; `close` and `unregister` are those of `Close`, which a
session that is already closed skips. -/
def proceed (s : State) (k : Nat) (c : Call) : Option State :=
  match c.progress with
  | .detach => some { s.setCall k c .readTemp with resumed := s.resumed.detach }
  | .readTemp =>
    match c.shell.attachment with
    | none => some (s.setCall k c (.returned false))
    | some att =>
      some { s.setCall k c (.attach (handoffAttachment s.nextID att)) with nextID := s.nextID + 1 }
  | .attach handoff =>
    match s.resumed.attach (some handoff) true with
    | .ok resumed => some { s.setCall k c .demote with resumed := resumed }
    | .error _ => some (s.setCall k c .close)
  | .demote =>
    some (s.setCall k
      { c with shell := { c.shell with delegate := some s.existing, attachment := none } }
      (.returned true))
  | .close =>
    if s.resumed.state = .closed then some (s.setCall k c (.returned false))
    else some { s.setCall k c .unregister with resumed := s.resumed.markClosed }
  | .unregister =>
    some { s.setCall k c (.returned false) with
      hub := (s.hub.removeSessionIfMatches s.sessionID s.existing).2 }
  | .returned _ => none

def step (s : State) (k : Nat) : Option State :=
  s.calls[k]?.bind (proceed s k)

abbrev run : State → List Nat → Option State :=
  Transition.run step

def Call.isReturned (c : Call) : Bool :=
  match c.progress with
  | .returned _ => true
  | _ => false

def Returned (s : State) : Prop :=
  ∀ c ∈ s.calls, c.isReturned

instance (s : State) : Decidable (Returned s) :=
  inferInstanceAs (Decidable (∀ c ∈ s.calls, c.isReturned))

def servedBy (s : State) (transports : List Nat) (k : Nat) : Prop :=
  ∃ transport, transports[k]? = some transport ∧
    s.resumed.attachment.map Attachment.transport = some transport

/-- The session is open, registered and attached to the transport of exactly one connection. -/
structure Served (s : State) (transports : List Nat) : Prop where
  state : s.resumed.state = .attached
  registered : s.hub.lookupSession s.sessionID = some s.existing
  unique : ∃! k, servedBy s transports k

/-- An `Attach` is made on a session that some connection has detached before. -/
def AttachesDetached (s : State) (k : Nat) : Prop :=
  match s.calls[k]?.map progress with
  | some (.attach _) => s.resumed.state = .detached
  | _ => True

instance (s : State) (k : Nat) : Decidable (AttachesDetached s k) := by
  unfold AttachesDetached
  split <;> infer_instance

/-- A live, registered session, and connections with a transport of their own each. -/
structure Competing (existing : SessionRef) (resumed : Session) (hub : Hub)
    (shells : List Session) (transports : List Nat) : Prop where
  live : resumed.state = .attached ∨ resumed.state = .detached
  registered : hub.lookupSession resumed.session = some existing
  connected : shells.map (fun c => c.attachment.map Attachment.transport) = transports.map some
  distinct : transports.Nodup
  nonempty : transports ≠ []

section Calls

def Call.failed (c : Call) : Bool :=
  match c.progress with
  | .close | .unregister | .returned false => true
  | _ => false

def Call.beforeAttach (c : Call) : Bool :=
  match c.progress with
  | .detach | .readTemp | .attach _ => true
  | _ => false

def Call.transport (c : Call) : Option Nat :=
  match c.progress with
  | .detach | .readTemp => c.shell.attachment.map Attachment.transport
  | .attach handoff => some handoff.transport
  | _ => none

/-- What holds in every state: a failed call closes the session, only a failed call does, and a
detached session has a connection that will still attach. -/
structure Tracked (transports : List Nat) (s : State) : Prop where
  nonempty : s.calls ≠ []
  transport : ∀ (k : Nat) (c : Call), s.calls[k]? = some c → c.beforeAttach →
    ∃ transport, transports[k]? = some transport ∧ c.transport = some transport
  state : s.resumed.state ≠ .authenticating
  pending : s.resumed.state = .detached → ∃ c ∈ s.calls, c.beforeAttach
  serving : s.resumed.state = .attached →
    (∃ k, servedBy s transports k) ∨ ∀ c ∈ s.calls, c.progress = .detach
  closes : (∃ c ∈ s.calls, c.progress = .unregister ∨ c.progress = .returned false) →
    s.resumed.state = .closed
  opened : (∀ c ∈ s.calls, c.failed = false) →
    s.resumed.state ≠ .closed ∧ s.hub.lookupSession s.sessionID = some s.existing

theorem Returned.progress {s : State} (h : Returned s) {c : Call} (hc : c ∈ s.calls) :
    ∃ ok, c.progress = .returned ok := by
  have hret := h c hc
  unfold isReturned at hret
  split at hret
  · next ok hok => exact ⟨ok, hok⟩
  · cases hret

variable {transports : List Nat} {s t : State} {k : Nat} {c d : Call}

theorem noneFailed_set_iff (hk : s.calls[k]? = some c) (hcd : c.failed → d.failed) :
    (∀ e ∈ s.calls.set k d, e.failed = false) ↔
      (∀ e ∈ s.calls, e.failed = false) ∧ (c.failed = false → d.failed = false) := by
  constructor
  · intro hall
    have hd := hall d (Locks.mem_set_self hk)
    refine ⟨?_, fun _ => hd⟩
    intro e he
    rw [← Bool.not_eq_true]
    intro hfailed
    obtain ⟨f, hf, hfails⟩ :=
      Locks.exists_mem_set (P := fun e => e.failed = true) hk hcd ⟨e, he, hfailed⟩
    exact Bool.false_ne_true ((hall f hf).symm.trans hfails)
  · rintro ⟨hall, hd⟩
    exact forall_mem_set hall (hd (hall c (mem_of_getElem? hk)))

section
variable (hs : Tracked transports s)
include hs

theorem Tracked.advance (hk : s.calls[k]? = some c) (hcalls : t.calls = s.calls.set k d)
    (hstate : t.resumed.state ≠ .authenticating)
    (htransport : d.beforeAttach → c.beforeAttach ∧ d.transport = c.transport)
    (hpending : t.resumed.state = .detached →
      d.beforeAttach ∨ s.resumed.state = .detached ∧ c.beforeAttach = false)
    (hserving : t.resumed.state = .attached → ∃ k, servedBy t transports k)
    (hclosed : s.resumed.state = .closed → t.resumed.state = .closed)
    (hfinal : d.progress = .unregister ∨ d.progress = .returned false → t.resumed.state = .closed)
    (hopened : d.failed = false → c.failed = false ∧
      (s.resumed.state ≠ .closed → t.resumed.state ≠ .closed) ∧
      t.hub.lookupSession t.sessionID = s.hub.lookupSession s.sessionID ∧
      t.existing = s.existing) :
    Tracked transports t where
  nonempty := by
    intro hnil
    rw [hcalls] at hnil
    exact absurd (hnil ▸ Locks.mem_set_self hk : d ∈ []) (not_mem_nil)
  transport := by
    intro j e hj he
    rw [hcalls] at hj
    rcases Locks.getElem?_set_cases hj with ⟨rfl, rfl⟩ | ⟨-, hj⟩
    · obtain ⟨hc, hdc⟩ := htransport he
      rw [hdc]
      exact hs.transport j c hk hc
    · exact hs.transport j e hj he
  state := hstate
  pending := by
    intro ht
    rw [hcalls]
    rcases hpending ht with hd | ⟨hdet, hc⟩
    · exact ⟨d, Locks.mem_set_self hk, hd⟩
    · apply Locks.exists_mem_set hk _ (hs.pending hdet)
      intro hbefore
      exact absurd (hc.symm.trans hbefore) Bool.false_ne_true
  serving := fun ht => .inl (hserving ht)
  closes := by
    rw [hcalls]
    rintro ⟨e, he, hfin⟩
    rcases mem_or_eq_of_mem_set he with he | rfl
    · exact hclosed (hs.closes ⟨e, he, hfin⟩)
    · exact hfinal hfin
  opened := by
    intro hall
    rw [hcalls] at hall
    obtain ⟨hc, hopen, hlookup, hexisting⟩ := hopened (hall d (Locks.mem_set_self hk))
    have hbefore := ((noneFailed_set_iff hk (by simp [hc])).mp hall).1
    obtain ⟨hlive, hreg⟩ := hs.opened hbefore
    rw [hlookup, hexisting]
    exact ⟨hopen hlive, hreg⟩

theorem Tracked.attached (hk : s.calls[k]? = some c) (hc : c.progress ≠ .detach)
    (h : s.resumed.state = .attached) :
    ∃ k, servedBy s transports k := by
  rcases hs.serving h with hserved | hall
  · exact hserved
  · exact absurd (hall c (mem_of_getElem? hk)) hc

theorem Tracked.live :
    s.resumed.state = .attached ∨ s.resumed.state = .detached ∨ s.resumed.state = .closed := by
  cases h : s.resumed.state with
  | authenticating => exact absurd h hs.state
  | attached => exact .inl rfl
  | detached => exact .inr (.inl rfl)
  | closed => exact .inr (.inr rfl)

theorem Tracked.proceed (hk : s.calls[k]? = some c) (h : proceed s k c = some t) :
    ∃ d : Call, t.calls = s.calls.set k d ∧ (c.failed → d.failed) ∧
      ((c.failed = false → d.failed = false) ↔ AttachesDetached s k) ∧ Tracked transports t := by
  have hmem := mem_of_getElem? hk
  have hattaches : AttachesDetached s k ↔ ∀ handoff, c.progress = .attach handoff →
      s.resumed.state = .detached := by
    unfold AttachesDetached
    rw [hk]
    cases hp : c.progress <;> simp [hp]
  rw [hattaches]
  unfold Takeover.proceed at h
  cases hp : c.progress with
  | detach =>
    simp only [hp, some.injEq] at h
    subst h
    have hdet : s.resumed.detach.state ≠ .attached := by
      unfold detach
      split <;> simp_all
    refine ⟨_, rfl, by simp [failed, hp], by simp [failed], ?_⟩
    refine hs.advance hk rfl ?_ ?_ ?_ ?_ ?_ (by simp) ?_
    · rcases hs.live with ha | hd | hc <;> simp_all [detach]
    · simp [beforeAttach, Call.transport, hp]
    · simp [beforeAttach]
    · intro ha
      exact absurd ha hdet
    · intro hc
      show s.resumed.detach.state = .closed
      rw [detach_of_ne (by simp [hc]), hc]
    · intro _
      refine ⟨by simp [failed, hp], ?_, rfl, rfl⟩
      intro hopen
      show s.resumed.detach.state ≠ .closed
      rcases hs.live with ha | hd | hc <;> simp_all [detach]
  | readTemp =>
    obtain ⟨transport, -, hsome⟩ := hs.transport k c hk (by simp [beforeAttach, hp])
    cases ha : c.shell.attachment with
    | none => simp [Call.transport, hp, ha] at hsome
    | some att =>
      simp only [hp, ha, some.injEq] at h
      subst h
      refine ⟨_, rfl, by simp [failed, hp], by simp [failed], ?_⟩
      refine hs.advance hk rfl hs.state ?_ ?_ ?_ (fun hc => hc) (by simp) ?_
      · simp [beforeAttach, Call.transport, hp, ha, handoffAttachment]
      · simp [beforeAttach]
      · exact hs.attached hk (by simp [hp])
      · exact fun _ => ⟨by simp [failed, hp], fun hopen => hopen, rfl, rfl⟩
  | attach handoff =>
    obtain ⟨transport, htr, hsome⟩ := hs.transport k c hk (by simp [beforeAttach, hp])
    obtain rfl : handoff.transport = transport := by simpa [Call.transport, hp] using hsome
    rcases hs.live with hst | hst | hst
    · simp only [hp, attach_of_attached handoff hst, some.injEq] at h
      subst h
      refine ⟨_, rfl, by simp [failed], by simp [failed, hp, hst], ?_⟩
      refine hs.advance hk rfl hs.state ?_ ?_ ?_ (fun hc => hc) (by simp) ?_
      · simp [beforeAttach]
      · intro hd
        simp [State.setCall, hst] at hd
      · exact hs.attached hk (by simp [hp])
      · simp [failed]
    · simp only [hp, attach_of_detached handoff hst, some.injEq] at h
      subst h
      refine ⟨_, rfl, by simp [failed, hp], by simp [failed, hst], ?_⟩
      refine hs.advance hk rfl (by simp) ?_ (by simp) ?_ (by simp [hst]) (by simp) ?_
      · simp [beforeAttach]
      · exact fun _ => ⟨k, handoff.transport, htr, rfl⟩
      · simp [failed, hp, State.setCall]
    · simp only [hp, attach_of_closed handoff hst, some.injEq] at h
      subst h
      refine ⟨_, rfl, by simp [failed], by simp [failed, hp, hst], ?_⟩
      refine hs.advance hk rfl hs.state ?_ ?_ ?_ (fun _ => hst) (fun _ => hst) ?_
      · simp [beforeAttach]
      · intro hd
        simp [State.setCall, hst] at hd
      · exact hs.attached hk (by simp [hp])
      · simp [failed]
  | demote =>
    simp only [hp, some.injEq] at h
    subst h
    refine ⟨_, rfl, by simp [failed, hp], by simp [failed], ?_⟩
    refine hs.advance hk rfl hs.state ?_ ?_ ?_ (fun hc => hc) (by simp) ?_
    · simp [beforeAttach]
    · exact fun hd => .inr ⟨hd, by simp [beforeAttach, hp]⟩
    · exact hs.attached hk (by simp [hp])
    · exact fun _ => ⟨by simp [failed, hp], fun hopen => hopen, rfl, rfl⟩
  | close =>
    simp only [hp] at h
    split at h
    · next hst =>
      cases h
      refine ⟨_, rfl, by simp [failed], by simp [failed, hp], ?_⟩
      refine hs.advance hk rfl hs.state ?_ ?_ ?_ (fun _ => hst) (fun _ => hst) ?_
      · simp [beforeAttach]
      · exact fun hd => .inr ⟨hd, by simp [beforeAttach, hp]⟩
      · exact hs.attached hk (by simp [hp])
      · simp [failed]
    · cases h
      refine ⟨_, rfl, by simp [failed], by simp [failed, hp], ?_⟩
      refine hs.advance hk rfl ?_ ?_ ?_ ?_ (fun _ => rfl) (fun _ => rfl) ?_
      all_goals simp [beforeAttach, failed, markClosed]
  | unregister =>
    have hst : s.resumed.state = .closed := hs.closes ⟨c, hmem, .inl hp⟩
    simp only [hp, some.injEq] at h
    subst h
    refine ⟨_, rfl, by simp [failed], by simp [failed, hp], ?_⟩
    refine hs.advance hk rfl hs.state ?_ ?_ ?_ (fun _ => hst) (fun _ => hst) ?_
    · simp [beforeAttach]
    · exact fun hd => .inr ⟨hd, by simp [beforeAttach, hp]⟩
    · exact hs.attached hk (by simp [hp])
    · simp [failed]
  | returned ok => simp [hp] at h

theorem Tracked.step (h : step s k = some t) :
    Tracked transports t := by
  obtain ⟨c, hk, hc⟩ := bind_eq_some_iff.mp h
  obtain ⟨-, -, -, -, ht⟩ := hs.proceed hk hc
  exact ht

theorem Tracked.noneFailed_step (h : Takeover.step s k = some t) :
    (∀ e ∈ t.calls, e.failed = false) ↔
      (∀ e ∈ s.calls, e.failed = false) ∧ AttachesDetached s k := by
  obtain ⟨c, hk, hc⟩ := bind_eq_some_iff.mp h
  obtain ⟨d, hcalls, hkeep, hiff, -⟩ := hs.proceed hk hc
  rw [hcalls, noneFailed_set_iff hk hkeep, hiff]

end

theorem Competing.shells_ne_nil {existing : SessionRef} {resumed : Session} {hub : Hub}
    {shells : List Session} (h : Competing existing resumed hub shells transports) :
    shells ≠ [] := by
  rintro rfl
  exact h.nonempty (by simpa using h.connected.symm)

theorem Competing.start {existing : SessionRef} {resumed : Session} {hub : Hub} {nextID : Nat}
    {shells : List Session} (h : Competing existing resumed hub shells transports) :
    Tracked transports (State.start existing resumed hub nextID shells) where
  nonempty := fun hnil => h.shells_ne_nil (map_eq_nil_iff.mp hnil)
  transport := by
    intro k c hk _
    obtain ⟨shell, hshell, rfl⟩ : ∃ shell, shells[k]? = some shell ∧ ⟨shell, .detach⟩ = c := by
      simpa [State.start] using hk
    have hconn := congrArg (·[k]?) h.connected
    simp only [getElem?_map, hshell, map_some] at hconn
    obtain ⟨transport, htr, hatt⟩ := map_eq_some_iff.mp hconn.symm
    exact ⟨transport, htr, hatt.symm⟩
  state := by
    intro hauth
    rcases h.live with hst | hst <;> simp [State.start, hst] at hauth
  pending := by
    intro _
    obtain ⟨shell, hmem⟩ := exists_mem_of_ne_nil shells h.shells_ne_nil
    exact ⟨⟨shell, .detach⟩, mem_map_of_mem hmem, rfl⟩
  serving := fun _ => .inr (forall_mem_map.mpr fun _ _ => rfl)
  closes := by
    rintro ⟨c, hc, hfin⟩
    obtain ⟨shell, -, rfl⟩ := mem_map.mp hc
    rcases hfin with hfin | hfin <;> cases hfin
  opened := by
    intro _
    refine ⟨?_, h.registered⟩
    rcases h.live with hst | hst <;> simp [State.start, hst]

theorem Tracked.served_iff (hs : Tracked transports s) (hdistinct : transports.Nodup)
    (hret : Returned s) :
    Served s transports ↔ ∀ c ∈ s.calls, c.failed = false := by
  constructor
  · intro hserved c hc
    obtain ⟨ok, hok⟩ := hret.progress hc
    cases ok with
    | true => simp [failed, hok]
    | false =>
      have hclosed := hs.closes ⟨c, hc, .inr hok⟩
      rw [hserved.state] at hclosed
      cases hclosed
  · intro hall
    obtain ⟨hopen, hreg⟩ := hs.opened hall
    have hattached : s.resumed.state = .attached := by
      rcases hs.live with hst | hst | hst
      · exact hst
      · obtain ⟨c, hc, hbefore⟩ := hs.pending hst
        obtain ⟨ok, hok⟩ := hret.progress hc
        simp [beforeAttach, hok] at hbefore
      · exact absurd hst hopen
    obtain ⟨c, hc⟩ := exists_mem_of_ne_nil s.calls hs.nonempty
    obtain ⟨k, hk⟩ := mem_iff_getElem?.mp hc
    obtain ⟨ok, hok⟩ := hret.progress hc
    obtain ⟨j, transport, hj, hserves⟩ := hs.attached hk (by simp [hok]) hattached
    refine ⟨hattached, hreg, j, ⟨transport, hj, hserves⟩, ?_⟩
    rintro i ⟨transport', hi, hserves'⟩
    obtain rfl : transport = transport' := by simpa [hserves] using hserves'
    obtain ⟨hlt, -⟩ := List.getElem?_eq_some_iff.mp hi
    exact (getElem?_inj hlt hdistinct).mp (hi.trans hj.symm)

end Calls

/-- When all takeovers have returned, the session is served by exactly one of the connections
exactly if each of them attached to a detached session. -/
theorem resume_served_iff {existing : SessionRef} {resumed : Session} {hub : Hub} {nextID : Nat}
    {shells : List Session} {transports ks : List Nat} {s : State}
    (hstart : Competing existing resumed hub shells transports)
    (hrun : run (.start existing resumed hub nextID shells) ks = some s) (hret : Returned s) :
    Served s transports ↔
      Transition.Along step AttachesDetached (.start existing resumed hub nextID shells) ks := by
  have htracked : Tracked transports s :=
    Transition.invariant hstart.start (fun _ _ _ ht hstep => ht.step hstep) hrun
  have hfresh : ∀ c ∈ (State.start existing resumed hub nextID shells).calls,
      c.failed = false := forall_mem_map.mpr fun _ _ => rfl
  rw [htracked.served_iff hstart.distinct hret]
  exact (Transition.along_iff_recorded (P := Tracked transports) hstart.start
    (fun _ _ _ ht hstep => ht.step hstep) hfresh
    (fun _ _ _ ht hstep => ht.noneFailed_step hstep) hrun).symm

section Schedules

def resumedSession : Session :=
  { newClient "s1" ⟨0, 0, .protobuf⟩ with
    user := "u1"
    authenticated := true
    state := .attached }

def shellSession (id transport : Nat) : Session :=
  newClient "s1" ⟨id, transport, .protobuf⟩

def twoResumes : State :=
  .start 7 resumedSession (Hub.empty.add "s1" 7) 3 [shellSession 1 1, shellSession 2 2]

theorem twoResumes_competing :
    Competing 7 resumedSession (Hub.empty.add "s1" 7) [shellSession 1 1, shellSession 2 2]
      [1, 2] :=
  ⟨.inl rfl, rfl, rfl, by decide, by decide⟩

theorem resume_served_in_turn :
    ∃ s, run twoResumes [0, 0, 0, 0, 1, 1, 1, 1] = some s ∧ Returned s ∧ Served s [1, 2] := by
  refine ⟨_, rfl, by decide, ?_⟩
  exact (resume_served_iff twoResumes_competing
    (rfl : run twoResumes [0, 0, 0, 0, 1, 1, 1, 1] = _) (by decide)).mpr (by decide)

/-- Both connections detach the session before either attaches: the second `Attach` finds it
attached and its error path closes and unregisters the session the first one serves. -/
theorem resume_closed_by_loser :
    ∃ s, run twoResumes [0, 1, 0, 1, 0, 0, 1, 1, 1] = some s ∧ Returned s ∧
      s.hub.lookupSession s.sessionID = none ∧ ¬ Served s [1, 2] := by
  refine ⟨_, rfl, by decide, by decide, ?_⟩
  intro hserved
  exact absurd hserved.state (by decide)

end Schedules

end MessageLoop.Takeover
