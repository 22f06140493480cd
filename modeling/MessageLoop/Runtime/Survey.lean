import MessageLoop.Lib.Transition
import Mathlib.Data.Finmap

/-!
A survey collects the responses of the sessions it was sent to (`internal/survey/survey.go`,
`AddSurveyResponse` of `internal/runtime/node.go`).

`AddResponse` writes the response into a map and then offers it to a channel; `Wait` takes
responses off the channel, writes them into the map once more, and collects the map when `done` is
signaled. Steps of all calls interleave; of the ready branches of a `select` any may be taken.
-/

namespace MessageLoop.Survey

open List Transition

structure SurveyResult where
  sessionID : String
  payload : List UInt8
  error : Option String
  deriving DecidableEq, Repr

inductive AddPc where
  | start
  | send
  | returned
  deriving DecidableEq, Repr

structure AddCall where
  result : SurveyResult
  pc : AddPc
  deriving DecidableEq, Repr

inductive WaitPc where
  | loop
  | received (result : SurveyResult)
  | returned (results : List SurveyResult)
  deriving DecidableEq, Repr

def WaitPc.pending : WaitPc → Option SurveyResult
  | .received result => some result
  | _ => none

def responseChCap : Nat := 100

/-- `added` lists the responses in the order in which `AddResponse` wrote them into the map. -/
structure State where
  expected : Finset String
  responses : Finmap fun _ : String => SurveyResult
  responseCh : List SurveyResult
  done : Bool
  calls : List AddCall
  wait : WaitPc
  added : List SurveyResult

/-- `sent` says whether the `select` of a call took the branch that sends; `order` is the one in
which `Wait` ranges over the map. -/
inductive Action where
  | addExpectedSession (sessionID : String)
  | addSurveyResponse (result : SurveyResult)
  | addResponse (result : SurveyResult)
  | call (k : Nat) (sent : Bool)
  | receive
  | record
  | closeDone
  | drain
  | collect (order : List String)
  deriving DecidableEq, Repr

namespace State

def newSurvey : State := ⟨∅, ∅, [], false, [], .loop, []⟩

def isExpectedSession (s : State) (sessionID : String) : Bool :=
  sessionID ∈ s.expected

def addResponse (s : State) (result : SurveyResult) : State :=
  { s with calls := s.calls ++ [⟨result, .start⟩] }

def write (s : State) (result : SurveyResult) : State :=
  { s with
    responses := s.responses.insert result.sessionID result
    added := s.added ++ [result] }

/-- One step of an `AddResponse`. The channel takes a response while it has room; with room and
`done` closed the `select` may take either branch. -/
def advance (s : State) (c : AddCall) (sent : Bool) : Option (State × AddCall) :=
  match c.pc with
  | .start => some (s.write c.result, { c with pc := .send })
  | .send =>
    if sent then
      if s.responseCh.length < responseChCap then
        some ({ s with responseCh := s.responseCh ++ [c.result] }, { c with pc := .returned })
      else none
    else if s.responseCh.length < responseChCap ∧ s.done = false then none
    else some (s, { c with pc := .returned })
  | .returned => none

def collected (s : State) (order : List String) : List SurveyResult :=
  order.filterMap s.responses.lookup

end State

def step (s : State) : Action → Option State
  | .addExpectedSession sessionID => some { s with expected := insert sessionID s.expected }
  | .addSurveyResponse result =>
    if s.isExpectedSession result.sessionID then some (s.addResponse result) else some s
  | .addResponse result => some (s.addResponse result)
  | .call k sent =>
    s.calls[k]?.bind fun c =>
      (s.advance c sent).map fun r => { r.1 with calls := r.1.calls.set k r.2 }
  | .receive =>
    match s.wait, s.responseCh with
    | .loop, result :: rest => some { s with responseCh := rest, wait := .received result }
    | _, _ => none
  | .record =>
    match s.wait with
    | .received result => some { s with
        responses := s.responses.insert result.sessionID result
        wait := .loop }
    | _ => none
  | .closeDone => some { s with done := true }
  | .drain =>
    -- `Close` has signaled `done` before it empties the channel.
    if s.done then some { s with responseCh := s.responseCh.tail } else none
  | .collect order =>
    if s.wait = .loop ∧ s.done = true ∧ order.Nodup ∧ order.toFinset = s.responses.keys then
      some { s with wait := .returned (s.collected order) }
    else none

abbrev run : State → List Action → Option State :=
  Transition.run step

def latest (added : List SurveyResult) (sessionID : String) : Option SurveyResult :=
  (added.filter (·.sessionID = sessionID)).getLast?

/-- `Wait` writes a response back only if its session has added none since. -/
def Fresh (s : State) (a : Action) : Prop :=
  a = .record → ∀ r ∈ s.wait.pending, latest s.added r.sessionID = some r

instance (s : State) (a : Action) : Decidable (Fresh s a) :=
  inferInstanceAs (Decidable (_ → _))

section Latest
variable {added : List SurveyResult} {result : SurveyResult} {sid : String}

theorem latest_append :
    latest (added ++ [result]) sid =
      if result.sessionID = sid then some result else latest added sid := by
  unfold latest
  by_cases h : result.sessionID = sid <;> simp [h]

theorem sessionID_of_latest (h : latest added sid = some result) : result.sessionID = sid := by
  have hmem := mem_of_getLast? h
  simpa using (mem_filter.mp hmem).2

theorem latest_eq_none_iff : latest added sid = none ↔ ∀ r ∈ added, r.sessionID ≠ sid := by
  simp [latest]

end Latest

section Results

/-- The map holds the last response of every session, and calls past their map write have added
their response. -/
structure Recorded (s : State) : Prop where
  map : ∀ sid, s.responses.lookup sid = latest s.added sid
  calls : ∀ c ∈ s.calls, c.pc ≠ .start → c.result ∈ s.added

variable {s t : State} {result : SurveyResult}

theorem lookup_insert_result (responses : Finmap fun _ : String => SurveyResult) (sid : String) :
    (responses.insert result.sessionID result).lookup sid =
      if result.sessionID = sid then some result else responses.lookup sid := by
  split_ifs with h
  · subst h
    exact Finmap.lookup_insert _
  · exact Finmap.lookup_insert_of_ne _ (Ne.symm h)

section
variable (h : Recorded s)
include h

theorem Recorded.addResponse : Recorded (s.addResponse result) where
  map := h.map
  calls := forall_mem_snoc h.calls (absurd rfl)

theorem Recorded.write : Recorded (s.write result) where
  map := by
    intro sid
    show (s.responses.insert result.sessionID result).lookup sid = latest (s.added ++ [result]) sid
    rw [lookup_insert_result, latest_append, h.map]
  calls := fun c hc hpc => mem_append_left _ (h.calls c hc hpc)

theorem Recorded.advance {c d : AddCall} {sent : Bool} {k : Nat} (hc : c ∈ s.calls)
    (hadvance : s.advance c sent = some (t, d)) :
    Recorded { t with calls := t.calls.set k d } := by
  unfold State.advance at hadvance
  split at hadvance
  · cases hadvance
    exact ⟨h.write.map, forall_mem_set h.write.calls fun _ => mem_append_right _ (mem_singleton.mpr rfl)⟩
  · rename_i hpc
    have hadded : c.result ∈ s.added := h.calls c hc (by simp [hpc])
    split_ifs at hadvance
    all_goals
      cases hadvance
      exact ⟨h.map, forall_mem_set h.calls fun _ => hadded⟩
  · cases hadvance

theorem Recorded.step {a : Action} (hfresh : Fresh s a)
    (hstep : step s a = some t) : Recorded t := by
  cases a with
  | addExpectedSession sid | closeDone =>
    cases hstep
    exact ⟨h.map, h.calls⟩
  | addSurveyResponse result =>
    simp only [Survey.step] at hstep
    split_ifs at hstep
    · cases hstep
      exact h.addResponse
    · cases hstep
      exact h
  | addResponse result =>
    cases hstep
    exact h.addResponse
  | call k sent =>
    obtain ⟨c, ⟨u, d⟩, hc, hu, rfl⟩ := Option.bind_map_eq_some hstep
    exact h.advance (mem_of_getElem? hc) hu
  | receive =>
    simp only [Survey.step] at hstep
    split at hstep
    · cases hstep
      exact ⟨h.map, h.calls⟩
    · cases hstep
  | record =>
    simp only [Survey.step] at hstep
    split at hstep
    · rename_i result hwait
      cases hstep
      refine ⟨?_, h.calls⟩
      intro sid
      rw [lookup_insert_result, h.map]
      split_ifs with hsid
      · subst hsid
        exact (hfresh rfl result (by simp [hwait, WaitPc.pending])).symm
      · rfl
    · cases hstep
  | drain | collect order =>
    simp only [Survey.step] at hstep
    split_ifs at hstep
    cases hstep
    exact ⟨h.map, h.calls⟩

theorem Recorded.map_collected {order : List String} (horder : ∀ sid ∈ order, sid ∈ s.responses) :
    (s.collected order).map SurveyResult.sessionID = order := by
  induction order with
  | nil => rfl
  | cons sid order ih =>
    obtain ⟨r, hr⟩ := Finmap.mem_iff.mp (horder sid mem_cons_self)
    have hsid : r.sessionID = sid := sessionID_of_latest ((h.map sid).symm.trans hr)
    have htail := ih fun x hx => horder x (mem_cons_of_mem sid hx)
    rw [State.collected] at htail ⊢
    simp only [filterMap_cons, hr, map_cons, hsid, htail]

theorem Recorded.mem_iff {sid : String} :
    sid ∈ s.responses ↔ ∃ r ∈ s.added, r.sessionID = sid := by
  rw [← not_iff_not, ← Finmap.lookup_eq_none, h.map, latest_eq_none_iff]
  simp

end

theorem recorded_newSurvey : Recorded .newSurvey :=
  ⟨fun _ => rfl, nofun⟩

theorem wait_returns (hdone : s.done = true) :
    ∃ as t results, as.length ≤ 2 ∧ run s as = some t ∧ t.wait = .returned results := by
  have hcollect : ∀ s : State, s.done = true → s.wait = .loop →
      step s (.collect s.responses.keys.toList) =
        some { s with wait := .returned (s.collected s.responses.keys.toList) } := by
    intro s hdone hwait
    simp only [step]
    rw [if_pos ⟨hwait, hdone, Finset.nodup_toList _, by simp⟩]
  cases hwait : s.wait with
  | returned results => exact ⟨[], s, results, by simp, rfl, hwait⟩
  | loop =>
    exact ⟨[.collect s.responses.keys.toList], _, _, by simp,
      (run_cons_iff step).mpr ⟨_, hcollect s hdone hwait, rfl⟩, rfl⟩
  | received result =>
    have hrecord : step s .record = some { s with
        responses := s.responses.insert result.sessionID result
        wait := .loop } := by
      simp only [step, hwait]
    exact ⟨[.record, .collect _], _, _, by simp, (run_cons_iff step).mpr ⟨_, hrecord,
      (run_cons_iff step).mpr ⟨_, hcollect _ hdone rfl, rfl⟩⟩, rfl⟩

/-- `Wait` returns once `done` is signaled. It then returns one entry for each session that has
added a response, among them all whose `AddResponse` has returned, and the entry is the last
response that the session had added before the collection. -/
theorem wait_results {as : List Action} {s : State} (hrun : run .newSurvey as = some s)
    (hfresh : Transition.Along step Fresh .newSurvey as) :
    (s.done = true →
      ∃ as t results, as.length ≤ 2 ∧ run s as = some t ∧ t.wait = .returned results) ∧
    ∀ order t, step s (.collect order) = some t → ∃ results, t.wait = .returned results ∧
      (results.map SurveyResult.sessionID).Nodup ∧
      (∀ sid, sid ∈ results.map SurveyResult.sessionID ↔ ∃ r ∈ s.added, r.sessionID = sid) ∧
      (∀ c ∈ s.calls, c.pc = .returned → c.result.sessionID ∈ results.map SurveyResult.sessionID) ∧
      ∀ r ∈ results, latest s.added r.sessionID = some r := by
  have hrecorded : Recorded s := invariant_along recorded_newSurvey
    (fun s a t hs hok => hs.step hok) hrun hfresh
  refine ⟨wait_returns, ?_⟩
  intro order t hstep
  simp only [step] at hstep
  split_ifs at hstep with hready
  obtain ⟨-, -, hnodup, hkeys⟩ := hready
  cases hstep
  have hmem : ∀ sid, sid ∈ order ↔ sid ∈ s.responses := by
    intro sid
    rw [← Finmap.mem_keys, ← hkeys, mem_toFinset]
  have hids := hrecorded.map_collected fun sid => (hmem sid).mp
  refine ⟨_, rfl, by rwa [hids], ?_, ?_, ?_⟩
  · intro sid
    rw [hids, hmem, hrecorded.mem_iff]
  · intro c hc hreturned
    rw [hids, hmem, hrecorded.mem_iff]
    exact ⟨c.result, hrecorded.calls c hc (by simp [hreturned]), rfl⟩
  · intro r hr
    obtain ⟨sid, -, hlookup⟩ := mem_filterMap.mp hr
    rw [hrecorded.map] at hlookup
    rwa [sessionID_of_latest hlookup]

def repliesTwice : List Action :=
  [.addExpectedSession "a", .addSurveyResponse ⟨"a", [1], none⟩, .call 0 false, .call 0 true,
    .receive, .record, .addSurveyResponse ⟨"a", [2], none⟩, .addResponse ⟨"b", [], some "timeout"⟩,
    .call 1 false, .call 2 false, .call 1 true, .closeDone]

theorem wait_results_repliesTwice :
    ∃ s t results, run .newSurvey repliesTwice = some s ∧ step s (.collect ["b", "a"]) = some t ∧
      t.wait = .returned results ∧ ∀ r ∈ results, latest s.added r.sessionID = some r := by
  obtain ⟨t, ht⟩ := Option.isSome_iff_exists.mp
    (show (run .newSurvey (repliesTwice ++ [.collect ["b", "a"]])).isSome by decide +kernel)
  obtain ⟨s, hs, hstep⟩ := (run_snoc_iff step).mp ht
  obtain ⟨results, hwait, -, -, -, hlatest⟩ := (wait_results hs (by decide +kernel)).2 _ _ hstep
  exact ⟨s, t, results, hs, hstep, hwait, hlatest⟩

/-- Both replies of `a` have been added when `Wait` takes the first one off the channel and writes
it over the second. -/
def repliesOverwritten : List Action :=
  [.addExpectedSession "a", .addSurveyResponse ⟨"a", [1], none⟩, .call 0 false, .call 0 true,
    .addSurveyResponse ⟨"a", [2], none⟩, .call 1 false, .receive, .call 1 true, .closeDone, .record]

theorem wait_results_overwritten :
    ∃ s t, run .newSurvey repliesOverwritten = some s ∧ step s (.collect ["a"]) = some t ∧
      (∀ c ∈ s.calls, c.pc = .returned) ∧
      t.wait = .returned [⟨"a", [1], none⟩] ∧ latest s.added "a" = some ⟨"a", [2], none⟩ := by
  obtain ⟨t, ht, hwait⟩ := Option.map_eq_some_iff.mp
    (show (run .newSurvey (repliesOverwritten ++ [.collect ["a"]])).map State.wait =
      some (.returned [⟨"a", [1], none⟩]) by decide +kernel)
  obtain ⟨s, hs, hstep⟩ := (run_snoc_iff step).mp ht
  obtain ⟨s', hs', hcalls, hlatest⟩ : ∃ s', run .newSurvey repliesOverwritten = some s' ∧
      (∀ c ∈ s'.calls, c.pc = .returned) ∧ latest s'.added "a" = some ⟨"a", [2], none⟩ := by
    refine ⟨(run .newSurvey repliesOverwritten).get (by decide +kernel), by simp, ?_, ?_⟩
    · decide +kernel
    · decide +kernel
  obtain rfl : s' = s := Option.some.inj (hs'.symm.trans hs)
  exact ⟨s', t, hs, hstep, hcalls, hwait, hlatest⟩

end Results

end MessageLoop.Survey
