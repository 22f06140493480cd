import MessageLoop.Session.Takeover

/-!
The ways in which a connection that ends closes its session (`internal/session/takeover.go`,
`session.go`), interleaved with takeovers.

The exit of a read loop and a write error first look whether their connection still serves the
session and close it afterwards, in a second critical section; a takeover whose `Attach` fails
closes the session without a look.
-/

namespace MessageLoop.Superseded

open List Option

open Takeover (Call Progress)

/-- `owner` is the read loop of the connection that the session object was created with, `shell k`
that of the connection of takeover `k`, `writer` the writer goroutine of an attachment. A write
error that says `fenced` makes the session fence itself. -/
inductive Kind where
  | owner
  | shell (k : Nat)
  | writer (fenced : Bool)
  deriving DecidableEq, Repr

/-- `check` and `handoff` are the two looks, `close` and `fence` act on the resumed session and
`closeShell` on the connection's own object, which routes to the session it delegates to. -/
inductive ExitPc where
  | check
  | handoff
  | close
  | fence
  | closeShell
  | fencing (captured : Option Attachment)
  | unregister
  | returned
  deriving DecidableEq, Repr

structure Exit where
  kind : Kind
  att : Attachment
  pc : ExitPc
  deriving DecidableEq, Repr

/-- `original` is the attachment the session was created with, `loop k` that of the connection of
takeover `k`. `holders` are the transports that have not been superseded: the one that was bound
last, and those whose takeovers have detached the session since. `closed` keeps the transport of the
connection on whose behalf the session was closed, with the holders at that time. -/
structure State where
  base : Takeover.State
  original : Attachment
  loop : Nat → Attachment
  exits : List Exit
  holders : List Nat
  closed : Option (Nat × List Nat)

/-- `probe` is the outcome of the probe in `Attach`, `ok` that of the removals of a `Fence`. -/
inductive Action where
  | takeover (k : Nat) (probe : Bool)
  | begin (kind : Kind) (att : Attachment)
  | exit (j : Nat) (ok : Bool)
  deriving DecidableEq, Repr

def State.serving (s : State) : Option Nat :=
  s.base.resumed.attachment.map Attachment.transport

def State.demoted (s : State) (k : Nat) : Bool :=
  (s.base.calls[k]?.map fun c => c.shell.delegate.isSome).getD false

def State.setExit (s : State) (j : Nat) (e : Exit) (pc : ExitPc) : State :=
  { s with exits := s.exits.set j { e with pc := pc } }

def State.setResumed (s : State) (resumed : Session) : State :=
  { s with base := { s.base with resumed := resumed } }

def State.markClosed (s : State) (transport : Nat) : State :=
  { s.setResumed s.base.resumed.markClosed with closed := some (transport, s.holders) }

def takeoverStep (s : State) (k : Nat) (probe : Bool) : Option State :=
  s.base.calls[k]?.bind fun c =>
    match c.progress with
    | .detach =>
      (Takeover.proceed s.base k c).map fun base =>
        { s with base := base, holders := (s.loop k).transport :: s.holders }
    | .attach handoff =>
      match s.base.resumed.attach (some handoff) probe with
      | .ok resumed => some { s with
          base := { s.base.setCall k c .demote with resumed := resumed }
          holders := [handoff.transport] }
      | .error _ => some { s with base := s.base.setCall k c .close }
    | .close =>
      if s.base.resumed.state = .closed then
        some { s with base := s.base.setCall k c (.returned false) }
      else
        let t := s.markClosed (s.loop k).transport
        some { t with base := t.base.setCall k c .unregister }
    | _ => (Takeover.proceed s.base k c).map fun base => { s with base := base }

def ends (s : State) (kind : Kind) (att : Attachment) : Bool :=
  match kind with
  | .owner => att = s.original
  | .shell k => k < s.base.calls.length ∧ att = s.loop k
  | .writer _ => true

def proceed (s : State) (j : Nat) (e : Exit) (ok : Bool) : Option State :=
  match e.pc with
  | .check =>
    match e.kind with
    | .owner =>
      some (s.setExit j e (if s.base.resumed.attachment = some e.att then .close else .returned))
    | .writer fenced =>
      some (s.setExit j e (if s.base.resumed.attachment = some e.att then
        (if fenced then .fence else .close) else .returned))
    | .shell k =>
      s.base.calls[k]?.map fun c =>
        s.setExit j e (if c.shell.delegate.isSome then .handoff
          else if c.shell.attachment = some e.att then .closeShell else .returned)
  | .handoff =>
    some (s.setExit j e (if s.serving = some e.att.transport then .close else .returned))
  | .close =>
    if s.base.resumed.state = .closed then some (s.setExit j e .returned)
    else some ((s.markClosed e.att.transport).setExit j e .unregister)
  | .fence =>
    if s.base.resumed.state = .closed then some (s.setExit j e .returned)
    else some ((s.markClosed e.att.transport).setExit j e (.fencing s.base.resumed.attachment))
  | .closeShell =>
    match e.kind with
    | .shell k =>
      s.base.calls[k]?.map fun c =>
        if c.shell.delegate.isSome then s.setExit j e .close
        else
          let t := s.setExit j e .returned
          { t with base := t.base.setCall k { c with shell := c.shell.markClosed } c.progress }
    | _ => none
  | .fencing captured =>
    if ok then some (s.setExit j e .unregister)
    else
      let t := (s.setResumed (s.base.resumed.reopen captured)).setExit j e .returned
      some { t with holders := if s.base.resumed.state = .closed then
        captured.elim s.holders ([·.transport]) else s.holders }
  | .unregister =>
    let t := s.setExit j e .returned
    some { t with base := { t.base with
      hub := (t.base.hub.removeSessionIfMatches t.base.sessionID t.base.existing).2 } }
  | .returned => none

def step (s : State) : Action → Option State
  | .takeover k probe => takeoverStep s k probe
  | .begin kind att =>
    if ends s kind att then some { s with exits := s.exits ++ [⟨kind, att, .check⟩] } else none
  | .exit j ok => s.exits[j]?.bind fun e => proceed s j e ok

abbrev run : State → List Action → Option State :=
  Transition.run step

/-- Connections that have yet to begin their takeovers, and no connection that ends. -/
structure Start (s : State) : Prop where
  calls : ∀ c ∈ s.base.calls, c.progress = .detach
  exits : s.exits = []
  serving : ∀ att ∈ s.base.resumed.attachment, att = s.original
  holders : s.holders = [s.original.transport]
  closed : s.closed = none

/-- Whoever closed the session had not been superseded. -/
def Rightful (s : State) : Prop :=
  ∀ transport holders, s.closed = some (transport, holders) → transport ∈ holders

section Condition

/-- The exit has taken its last look: its next section closes the resumed session, or routes
there. -/
def Exit.hits (s : State) (e : Exit) : Bool :=
  match e.pc, e.kind with
  | .close, _ | .fence, _ => true
  | .closeShell, .shell k => s.demoted k
  | _, _ => false

/-- The connections between their last look and their close are among these. -/
def ClosesOnly (s : State) (transports : List Nat) : Prop :=
  (∀ e ∈ s.exits, e.hits s → e.att.transport ∈ transports) ∧
    ∀ k < s.base.calls.length, s.base.calls[k]?.map Call.progress = some .close →
      (s.loop k).transport ∈ transports

instance (s : State) (transports : List Nat) : Decidable (ClosesOnly s transports) := by
  unfold ClosesOnly
  infer_instance

/-- An attachment is bound only while no other connection is between its last look and its close; an
`Attach` fails, and a shell is demoted while its connection ends, only if the connection has not been
superseded. -/
def Alone (s : State) : Action → Prop
  | .takeover k probe =>
    match s.base.calls[k]?.map Call.progress with
    | some (.attach handoff) =>
      if (s.base.resumed.attach (some handoff) probe).isOk then ClosesOnly s [handoff.transport]
      else (s.loop k).transport ∈ s.holders
    | some .demote => ∀ e ∈ s.exits, e.kind = .shell k → e.pc = .closeShell →
        e.att.transport ∈ s.holders
    | _ => True
  | .exit j false =>
    match s.exits[j]?.map Exit.pc with
    | some (.fencing (some captured)) =>
      s.base.resumed.state = .closed → ClosesOnly s [captured.transport]
    | _ => True
  | _ => True

instance (s : State) (a : Action) : Decidable (Alone s a) := by
  unfold Alone
  split
  · split <;> infer_instance
  · split <;> infer_instance
  · infer_instance

end Condition

section Closers
variable {s t : State} {k j : Nat} {transports : List Nat} {c d : Call} {e e' : Exit}

theorem demoted_of_set (hk : s.base.calls[k]? = some c)
    (hcalls : t.base.calls = s.base.calls.set k d) {i : Nat}
    (h : t.demoted i) : i = k ∧ d.shell.delegate.isSome ∨ s.demoted i := by
  unfold State.demoted at h
  rw [hcalls] at h
  by_cases hi : k = i
  · subst hi
    have hlt : k < s.base.calls.length := (List.getElem?_eq_some_iff.mp hk).1
    rw [getElem?_set_self hlt] at h
    exact .inl ⟨rfl, by simpa using h⟩
  · rw [getElem?_set_ne hi] at h
    exact .inr h

theorem ClosesOnly.mono {more : List Nat} (h : ClosesOnly s transports)
    (hsub : transports ⊆ more) : ClosesOnly s more :=
  ⟨fun e he hhits => hsub (h.1 e he hhits), fun k hk hclose => hsub (h.2 k hk hclose)⟩

theorem ClosesOnly.setCall (h : ClosesOnly s transports) (hk : s.base.calls[k]? = some c)
    (hcalls : t.base.calls = s.base.calls.set k d) (hloop : t.loop = s.loop)
    (hexits : t.exits = s.exits)
    (hdelegate : d.shell.delegate.isSome → c.shell.delegate.isSome ∨
      ∀ e ∈ s.exits, e.kind = .shell k → e.pc = .closeShell → e.att.transport ∈ transports)
    (hclose : d.progress = .close → (s.loop k).transport ∈ transports) :
    ClosesOnly t transports := by
  refine ⟨?_, ?_⟩
  · intro e he hhits
    rw [hexits] at he
    obtain ⟨kind, att, pc⟩ := e
    have hold := h.1 _ he
    unfold Exit.hits at hhits hold
    cases pc with
    | closeShell =>
      cases kind with
      | shell i =>
        rcases demoted_of_set hk hcalls hhits with ⟨rfl, hd⟩ | hdemoted
        · rcases hdelegate hd with hsome | hheld
          · exact hold (by simpa [State.demoted, hk] using hsome)
          · exact hheld _ he rfl rfl
        · exact hold hdemoted
      | owner | writer => cases hhits
    | _ => exact hold hhits
  · intro i hi hprogress
    rw [hcalls, length_set] at hi
    rw [hloop]
    rw [hcalls] at hprogress
    by_cases hik : k = i
    · subst hik
      rw [getElem?_set_self hi] at hprogress
      exact hclose (some.inj hprogress)
    · rw [getElem?_set_ne hik] at hprogress
      exact h.2 i hi hprogress

theorem ClosesOnly.setExit (h : ClosesOnly s transports) (hcalls : t.base.calls = s.base.calls)
    (hloop : t.loop = s.loop) (hexits : t.exits = s.exits.set j e)
    (hhits : e.hits s → e.att.transport ∈ transports) : ClosesOnly t transports := by
  have hsame : ∀ e : Exit, e.hits t = e.hits s := by
    intro e
    simp only [Exit.hits, State.demoted, hcalls]
  refine ⟨?_, ?_⟩
  · intro f hf hfhits
    rw [hsame] at hfhits
    rw [hexits] at hf
    rcases mem_or_eq_of_mem_set hf with hf | rfl
    · exact h.1 f hf hfhits
    · exact hhits hfhits
  · rw [hcalls, hloop]
    exact h.2

/-- The attachment is that of a holder, and only holders are about to close the session. -/
structure Aligned (s : State) : Prop where
  rightful : Rightful s
  serving : ∀ att ∈ s.base.resumed.attachment, att.transport ∈ s.holders
  closers : ClosesOnly s s.holders

theorem rightful_markClosed {transport : Nat} (h : transport ∈ s.holders) :
    Rightful (s.markClosed transport) := by
  intro x holders hclosed
  cases hclosed
  exact h

theorem attachment_detach {r : Session} {att : Attachment} (h : r.detach.attachment = some att) :
    r.attachment = some att := by
  unfold Session.detach at h
  split_ifs at h
  exact h

theorem attachment_attach {r r' : Session} {att : Attachment} {probe : Bool}
    (h : r.attach (some att) probe = .ok r') : r'.attachment = some att := by
  cases probe with
  | false => cases h
  | true =>
    simp only [Session.attach, if_true, Session.attachLocked] at h
    split at h <;> cases h <;> rfl

theorem Aligned.takeover (h : Aligned s) {probe : Bool} (hok : Alone s (.takeover k probe))
    (hstep : takeoverStep s k probe = some t) : Aligned t := by
  obtain ⟨⟨shell, progress⟩, hk, hstep⟩ := bind_eq_some_iff.mp hstep
  simp only [Alone, hk, map_some] at hok
  cases progress with
  | detach =>
    cases hstep
    have hsub : s.holders ⊆ (s.loop k).transport :: s.holders := subset_cons_self _ _
    refine ⟨h.rightful, ?_, (h.closers.mono hsub).setCall hk rfl rfl rfl .inl nofun⟩
    intro att hatt
    exact hsub (h.serving att (attachment_detach hatt))
  | readTemp =>
    simp only [Takeover.proceed] at hstep
    split at hstep <;> cases hstep <;>
      exact ⟨h.rightful, h.serving, h.closers.setCall hk rfl rfl rfl .inl nofun⟩
  | attach handoff =>
    simp only at hstep hok
    cases hattach : s.base.resumed.attach (some handoff) probe with
    | error err =>
      rw [hattach] at hstep hok
      cases hstep
      exact ⟨h.rightful, h.serving, h.closers.setCall hk rfl rfl rfl .inl fun _ => hok⟩
    | ok resumed =>
      rw [hattach] at hstep hok
      cases hstep
      refine ⟨h.rightful, ?_, ClosesOnly.setCall hok hk rfl rfl rfl .inl nofun⟩
      intro att hatt
      obtain rfl : handoff = att := some.inj ((attachment_attach hattach).symm.trans hatt)
      exact mem_cons_self
  | demote =>
    cases hstep
    exact ⟨h.rightful, h.serving, h.closers.setCall hk rfl rfl rfl (fun _ => .inr hok) nofun⟩
  | close =>
    split_ifs at hstep
    · cases hstep
      exact ⟨h.rightful, h.serving, h.closers.setCall hk rfl rfl rfl .inl nofun⟩
    · cases hstep
      have hlt : k < s.base.calls.length := (List.getElem?_eq_some_iff.mp hk).1
      have hheld := h.closers.2 k hlt (by rw [hk]; rfl)
      exact ⟨rightful_markClosed hheld, nofun, h.closers.setCall hk rfl rfl rfl .inl nofun⟩
  | unregister =>
    cases hstep
    exact ⟨h.rightful, h.serving, h.closers.setCall hk rfl rfl rfl .inl nofun⟩
  | returned ok => cases hstep

theorem Aligned.setExit (h : Aligned s) {pc : ExitPc}
    (hhits : ({ e with pc := pc } : Exit).hits s → e.att.transport ∈ s.holders) :
    Aligned (s.setExit j e pc) :=
  ⟨h.rightful, h.serving, h.closers.setExit rfl rfl rfl hhits⟩

theorem Aligned.markClosed (h : Aligned s) (he : e ∈ s.exits) (hhits : e.hits s) {pc : ExitPc}
    (hpc : ({ e with pc := pc } : Exit).hits s = false) :
    Aligned ((s.markClosed e.att.transport).setExit j e pc) := by
  refine ⟨rightful_markClosed (h.closers.1 e he hhits), nofun, h.closers.setExit rfl rfl rfl ?_⟩
  intro hagain
  rw [hpc] at hagain
  cases hagain

theorem Aligned.exit (h : Aligned s) {ok : Bool} (hok : Alone s (.exit j ok))
    (hj : s.exits[j]? = some e) (hstep : proceed s j e ok = some t) : Aligned t := by
  have hmem : e ∈ s.exits := mem_of_getElem? hj
  obtain ⟨kind, att, pc⟩ := e
  cases pc with
  | check =>
    -- the look compares attachments, so a connection that passes it serves the session
    cases kind with
    | owner =>
      cases hstep
      refine h.setExit ?_
      split_ifs with hcurrent
      · exact fun _ => h.serving att hcurrent
      · nofun
    | writer fenced =>
      cases hstep
      refine h.setExit ?_
      split_ifs with hcurrent
      · exact fun _ => h.serving att hcurrent
      · exact fun _ => h.serving att hcurrent
      · nofun
    | shell k =>
      obtain ⟨c, hc, rfl⟩ := map_eq_some_iff.mp hstep
      refine h.setExit ?_
      split_ifs with hdelegate hcurrent
      · nofun
      · intro hhits
        simp [Exit.hits, State.demoted, hc, hdelegate] at hhits
      · nofun
  | handoff =>
    cases hstep
    refine h.setExit ?_
    split_ifs with hserving
    · intro _
      obtain ⟨current, hcurrent, htransport⟩ := map_eq_some_iff.mp hserving
      exact htransport ▸ h.serving current hcurrent
    · nofun
  | close | fence =>
    simp only [proceed] at hstep
    split_ifs at hstep <;> cases hstep
    · exact h.setExit nofun
    · exact h.markClosed hmem rfl rfl
  | closeShell =>
    cases kind with
    | owner | writer => cases hstep
    | shell k =>
      obtain ⟨c, hc, rfl⟩ := map_eq_some_iff.mp hstep
      by_cases hdelegate : c.shell.delegate.isSome
      · rw [if_pos hdelegate]
        refine h.setExit fun _ => h.closers.1 _ hmem ?_
        simpa [Exit.hits, State.demoted, hc] using hdelegate
      · rw [if_neg hdelegate]
        have hexit : Aligned (s.setExit j ⟨.shell k, att, .closeShell⟩ .returned) := h.setExit nofun
        refine ⟨h.rightful, h.serving, hexit.closers.setCall hc rfl rfl rfl .inl ?_⟩
        intro hclose
        have hlt : k < s.base.calls.length := (List.getElem?_eq_some_iff.mp hc).1
        exact h.closers.2 k hlt (by rw [hc]; exact congrArg some hclose)
  | fencing captured =>
    cases ok with
    | true =>
      cases hstep
      exact h.setExit nofun
    | false =>
      simp only [Alone, hj, map_some] at hok
      cases hstep
      by_cases hbind : s.base.resumed.state = .closed ∧ captured ≠ none
      · -- the attachment that is bound again is the only holder
        obtain ⟨hclosed, hsome⟩ := hbind
        obtain ⟨captured, rfl⟩ := ne_none_iff_exists'.mp hsome
        refine ⟨h.rightful, ?_, ?_⟩
        · intro current hcurrent
          replace hcurrent : (s.base.resumed.reopen (some captured)).attachment = some current :=
            hcurrent
          obtain rfl : captured = current := by simpa [Session.reopen, hclosed] using hcurrent
          simp [hclosed]
        · simp only [hclosed, if_true, elim_some]
          exact (hok hclosed).setExit rfl rfl rfl nofun
      · have hsame : s.base.resumed.reopen captured = s.base.resumed := if_neg hbind
        have hholders : (if s.base.resumed.state = .closed then
            captured.elim s.holders ([·.transport]) else s.holders) = s.holders := by
          split_ifs with hclosed
          · rw [not_ne_iff.mp fun hsome => hbind ⟨hclosed, hsome⟩, elim_none]
          · rfl
        simp only [hsame, hholders]
        exact ⟨h.rightful, h.serving, h.closers.setExit rfl rfl rfl nofun⟩
  | unregister =>
    cases hstep
    exact ⟨h.rightful, h.serving, h.closers.setExit rfl rfl rfl nofun⟩
  | returned => cases hstep

theorem Aligned.step (h : Aligned s) {a : Action} (hok : Alone s a) (hstep : step s a = some t) :
    Aligned t := by
  cases a with
  | takeover k probe => exact h.takeover hok hstep
  | begin kind att =>
    simp only [Superseded.step] at hstep
    split_ifs at hstep
    cases hstep
    refine ⟨h.rightful, h.serving, forall_mem_snoc h.closers.1 ?_, h.closers.2⟩
    intro hhits
    cases kind <;> cases hhits
  | exit j ok =>
    obtain ⟨e, hj, hstep⟩ := bind_eq_some_iff.mp hstep
    exact h.exit hok hj hstep

theorem aligned_start (h : Start s) : Aligned s := by
  refine ⟨?_, ?_, ?_, ?_⟩
  · intro transport holders hclosed
    rw [h.closed] at hclosed
    cases hclosed
  · intro att hatt
    rw [h.holders, h.serving att hatt]
    exact mem_cons_self
  · rw [h.exits]
    exact forall_mem_nil _
  · intro k hk hclose
    rw [getElem?_eq_getElem hk, map_some, h.calls _ (getElem_mem hk)] at hclose
    cases hclose

end Closers

/-- Where no other connection is between its look and its close when an attachment is bound, and no
takeover that has been superseded fails, a session is only ever closed on behalf of a connection that
has not been superseded. -/
theorem superseded_harmless {start s : State} {as : List Action} (hstart : Start start)
    (hrun : run start as = some s) (halone : Transition.Along step Alone start as) :
    Rightful s :=
  (Transition.invariant_along (P := Aligned) (aligned_start hstart)
    (fun _ _ _ h hok hstep => h.step hok hstep) hrun halone).rightful

section Schedules

def resumes (n : Nat) : State where
  base := .start 7 Takeover.resumedSession (Hub.empty.add "s1" 7) (n + 1)
    ((range n).map fun k => Takeover.shellSession (k + 1) (k + 1))
  original := ⟨0, 0, .protobuf⟩
  loop := fun k => ⟨k + 1, k + 1, .protobuf⟩
  exits := []
  holders := [0]
  closed := none

theorem start_resumes (n : Nat) : Start (resumes n) where
  calls := forall_mem_map.mpr fun _ _ => rfl
  exits := rfl
  serving := by
    rintro att ⟨⟩
    rfl
  holders := rfl
  closed := rfl

/-- The old read loop and the old writer end during and after the takeover; a second takeover fails
and closes the session. -/
def endsInTurn : List Action :=
  [.begin .owner ⟨0, 0, .protobuf⟩, .takeover 0 true, .exit 0 true, .takeover 0 true,
    .takeover 0 true, .takeover 0 true, .begin (.writer false) ⟨0, 0, .protobuf⟩, .exit 1 true,
    .takeover 1 true, .takeover 1 true, .begin (.shell 0) ⟨1, 1, .protobuf⟩, .exit 2 true,
    .exit 2 true, .takeover 1 false, .takeover 1 true]

theorem superseded_harmless_inTurn :
    ∃ s, run (resumes 2) endsInTurn = some s ∧ s.closed = some (2, [2, 1]) ∧ Rightful s :=
  ⟨_, rfl, rfl, superseded_harmless (start_resumes 2) (rfl : run (resumes 2) endsInTurn = _)
    (by decide)⟩

/-- The old read loop looks before the takeover and closes after it. And of three resumes the first
is superseded by the second, and closes the session when its `Attach` fails after the third has
detached it. -/
theorem superseded_closes_session :
    (Start (resumes 1) ∧
      ∃ as s, run (resumes 1) as = some s ∧ s.closed = some (0, [1]) ∧
        s.base.resumed.state = .closed ∧ ¬ Rightful s) ∧
    Start (resumes 3) ∧
      ∃ as s, run (resumes 3) as = some s ∧ s.closed = some (1, [3, 2]) ∧
        s.base.resumed.state = .closed ∧ ¬ Rightful s := by
  refine ⟨⟨start_resumes 1, [.begin .owner ⟨0, 0, .protobuf⟩, .exit 0 true, .takeover 0 true,
    .takeover 0 true, .takeover 0 true, .exit 0 true], _, rfl, rfl, rfl, ?_⟩, start_resumes 3,
    [.takeover 0 true, .takeover 0 true, .takeover 1 true, .takeover 1 true, .takeover 1 true,
      .takeover 1 true, .takeover 2 true, .takeover 0 false, .takeover 0 true], _, rfl, rfl, rfl, ?_⟩
  · intro hrightful
    exact absurd (hrightful 0 [1] rfl) (by decide)
  · intro hrightful
    exact absurd (hrightful 1 [3, 2] rfl) (by decide)

end Schedules

end MessageLoop.Superseded
