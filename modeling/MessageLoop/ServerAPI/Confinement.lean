import MessageLoop.Lib.Transition
import MessageLoop.ServerAPI.Handler

/-!
Scope confinement of the Server API, as a property of two runs.

A caller with a namespace scope should cause effects only inside the scope, and should not be able
to tell apart two nodes that differ outside of it. The handlers address only session IDs that have
been admitted: an explicit ID by the visibility test, the IDs listed for a user by the namespace of
the user. A command resolves its ID again, in the hub and then in the directory, and nothing
compares the session it finds with the one that was admitted.
-/

namespace MessageLoop.ServerAPI

open Authz Topics List Program ServerAPI.Runtime

variable {i : APIIdentity} {n n₁ n₂ : Runtime} {ns userID sessionID channel : String}
variable {lease : SessionLease} {users sessions : List String} {done : List Effect}
variable {past later : List (Event Op.Answer)}

section Scope

def inScope (i : APIIdentity) (ns : String) : Bool :=
  ns ≠ "" && i.allowsNamespace ns

def Command.inScope (i : APIIdentity) : Command → Bool
  | .publish _ | .disconnect _ _ => true
  | .subscribe channel | .unsubscribe channel => i.allowsChannel channel

def Effect.inScope (i : APIIdentity) : Effect → Bool
  | .command _ _ lease cmd => ServerAPI.inScope i lease.ns && cmd.inScope i
  | .publish channel _ _ => i.allowsChannel channel

def Confined (i : APIIdentity) (done : List Effect) : Prop :=
  ∀ effect ∈ done, effect.inScope i = true

def Hidden (i : APIIdentity) : Except Unit (Option SessionLease) → Prop
  | .error _ => False
  | .ok none => True
  | .ok (some lease) => inScope i lease.ns = false

/-- Two views that differ only in sessions outside the scope, and in whether there are any. -/
structure View.Agree (i : APIIdentity) (v₁ v₂ : View) : Prop where
  hub : ∀ sessionID s, inScope i s.ns → (v₁.hub sessionID = some s ↔ v₂.hub sessionID = some s)
  registered : ∀ ns userID s, inScope i s.ns →
    (s ∈ v₁.registeredByUser ns userID ↔ s ∈ v₂.registeredByUser ns userID)
  leases : ∀ sessionID, v₁.getSessionLease sessionID = v₂.getSessionLease sessionID ∨
    Hidden i (v₁.getSessionLease sessionID) ∧ Hidden i (v₂.getSessionLease sessionID)
  index : ∀ ns userID, inScope i ns → ∀ sessionID,
    sessionID ∈ v₁.listUserSessions ns userID ↔ sessionID ∈ v₂.listUserSessions ns userID

/-- Two such nodes. Effects in scope have the same outcome on both, and do not make them differ. -/
structure Agree (i : APIIdentity) (n₁ n₂ : Runtime) : Prop where
  clusterEnabled : n₁.clusterEnabled = n₂.clusterEnabled
  nodeID : n₁.nodeID = n₂.nodeID
  incarnationID : n₁.incarnationID = n₂.incarnationID
  authorizer : n₁.authorizer = n₂.authorizer
  view : ∀ done, Confined i done → (n₁.view done).Agree i (n₂.view done)
  answer : ∀ done effect, Confined i done → effect.inScope i →
    n₁.answer done effect = n₂.answer done effect

/-- On which side of the scope the hub has a session of this ID. -/
def hubSide (i : APIIdentity) (n : Runtime) (done : List Effect) (sessionID : String) :
    Option Bool :=
  ((n.view done).hub sessionID).map (inScope i ·.ns)

/-- On which side of the scope the directory has a lease of this ID. -/
def leaseSide (i : APIIdentity) (n : Runtime) (done : List Effect) (sessionID : String) :
    Option Bool :=
  match (n.view done).getSessionLease sessionID with
  | .ok (some lease) => if n.clusterEnabled then some (inScope i lease.ns) else none
  | _ => none

/-- The hub has a session outside the scope under an ID that is leased to one in scope. -/
def Shadowed (i : APIIdentity) (n : Runtime) (done : List Effect) (sessionID : String) : Prop :=
  hubSide i n done sessionID = some false ∧ leaseSide i n done sessionID = some true

instance : Decidable (Shadowed i n done sessionID) :=
  inferInstanceAs (Decidable (_ ∧ _))

/-- The ID is that of a hub session outside the scope or, without a hub session, of a lease. -/
def Outside (i : APIIdentity) (n : Runtime) (done : List Effect) (sessionID : String) : Prop :=
  hubSide i n done sessionID = some false ∨
    hubSide i n done sessionID = none ∧ leaseSide i n done sessionID = some false

instance : Decidable (Outside i n done sessionID) :=
  inferInstanceAs (Decidable (_ ∨ _))

def admits (i : APIIdentity) (id : String) : Event Op.Answer → Bool
  | ⟨.sessionVisibleTo sessionID, visible⟩ => visible && sessionID = id
  | ⟨.expandUserSessions ns userID, (ids : List String)⟩ =>
    (userID = "" || inScope i ns) && ids.contains id
  | _ => false

/-- The request has found the ID visible, or listed for a user of a namespace in scope. -/
def Admitted (i : APIIdentity) (past : List (Event Op.Answer)) (id : String) : Prop :=
  past.any (admits i id) = true

instance : Decidable (Admitted i past sessionID) :=
  inferInstanceAs (Decidable (_ = _))

def Op.target : Op → Option String
  | .publishToSession sessionID _ | .disconnectSession sessionID _ _
  | .subscribeSession sessionID _ | .unsubscribeSession sessionID _ => some sessionID
  | _ => none

/-- At this call of the request no session ID crosses the scope: an ID tested for visibility is
shadowed on both nodes or on neither, and an ID that has been admitted is not by now the ID of a
session outside the scope. -/
def Separate (i : APIIdentity) (n₁ n₂ : Runtime) (past : List (Event Op.Answer))
    (done : List Effect) : Op → Prop
  | .sessionVisibleTo id => Shadowed i n₁ done id ↔ Shadowed i n₂ done id
  | op => ∀ id ∈ op.target, Admitted i past id → ¬ Outside i n₁ done id ∧ ¬ Outside i n₂ done id

instance (op : Op) : Decidable (Separate i n₁ n₂ past done op) := by
  unfold Separate
  split <;> infer_instance

end Scope

section Resolve
variable {s : Session}

theorem resolveSessionLease_empty : n.resolveSessionLease done "" = .ok none := rfl

theorem resolveSessionLease_of_hub (hid : sessionID ≠ "")
    (hhub : (n.view done).hub sessionID = some s) :
    ∃ lease, n.resolveSessionLease done sessionID = .ok (some lease) ∧ lease.ns = s.ns := by
  refine ⟨_, by rw [resolveSessionLease, if_neg hid, hhub], ?_⟩
  split <;> rfl

theorem resolveSessionLease_of_directory (hid : sessionID ≠ "")
    (hhub : (n.view done).hub sessionID = none) :
    n.resolveSessionLease done sessionID =
      if n.clusterEnabled then (n.view done).getSessionLease sessionID else .ok none := by
  rw [resolveSessionLease, if_neg hid, hhub]
  cases n.clusterEnabled <;> rfl

theorem inScope_of_not_outside (h : ¬ Outside i n done sessionID)
    (hlease : n.resolveSessionLease done sessionID = .ok (some lease)) :
    inScope i lease.ns = true := by
  have hid : sessionID ≠ "" := by
    rintro rfl
    cases hlease
  by_contra hout
  apply h
  cases hhub : (n.view done).hub sessionID with
  | some s =>
    obtain ⟨found, hfound, hns⟩ := resolveSessionLease_of_hub hid hhub
    cases hfound.symm.trans hlease
    refine .inl ?_
    rw [hubSide, hhub, Option.map_some, ← hns]
    simpa using hout
  | none =>
    rw [resolveSessionLease_of_directory hid hhub] at hlease
    split_ifs at hlease with hcluster
    · refine .inr ⟨by rw [hubSide, hhub, Option.map_none], ?_⟩
      simpa [leaseSide, hlease, hcluster] using hout
    · cases hlease

theorem sessionVisibleTo_iff (hscoped : i.isGlobal = false) (hid : sessionID ≠ "") :
    sessionVisibleTo n i done sessionID = true ↔ hubSide i n done sessionID = some true ∨
      hubSide i n done sessionID = none ∧ leaseSide i n done sessionID = some true := by
  simp only [sessionVisibleTo, hscoped, Bool.false_eq_true, if_false, apiSessionNamespace,
    if_neg hid, hubSide, leaseSide]
  cases hhub : (n.view done).hub sessionID with
  | some s => by_cases hempty : s.ns = "" <;> simp [inScope, hempty]
  | none =>
    cases hcluster : n.clusterEnabled with
    | false =>
      simp only [Bool.not_false, if_true, Bool.false_eq_true, if_false, Option.map_none, false_iff]
      split <;> simp
    | true =>
      cases hlease : (n.view done).getSessionLease sessionID with
      | error err => simp
      | ok found =>
        cases found with
        | none => simp
        | some lease => by_cases hempty : lease.ns = "" <;> simp [inScope, hempty]

theorem View.Agree.lease_eq {v₁ v₂ : View} (h : v₁.Agree i v₂)
    (hlease : v₁.getSessionLease sessionID = .ok (some lease)) (hns : inScope i lease.ns = true) :
    v₂.getSessionLease sessionID = .ok (some lease) := by
  rcases h.leases sessionID with heq | ⟨hhidden, -⟩
  · rw [← heq, hlease]
  · rw [hlease, Hidden, hns] at hhidden
    cases hhidden

theorem View.Agree.symm {v₁ v₂ : View} (h : v₁.Agree i v₂) : v₂.Agree i v₁ where
  hub sessionID s hs := (h.hub sessionID s hs).symm
  registered ns userID s hs := (h.registered ns userID s hs).symm
  leases sessionID := (h.leases sessionID).imp Eq.symm And.symm
  index ns userID hns sessionID := (h.index ns userID hns sessionID).symm

theorem Agree.symm (h : Agree i n₁ n₂) : Agree i n₂ n₁ where
  clusterEnabled := h.clusterEnabled.symm
  nodeID := h.nodeID.symm
  incarnationID := h.incarnationID.symm
  authorizer := h.authorizer.symm
  view done hdone := (h.view done hdone).symm
  answer done effect hdone he := (h.answer done effect hdone he).symm

section
variable (h : Agree i n₁ n₂) (hdone : Confined i done)
include h hdone

theorem Agree.hubSide_inside (hside : hubSide i n₁ done sessionID = some true) :
    hubSide i n₂ done sessionID = some true := by
  obtain ⟨s, hs, hin⟩ := Option.map_eq_some_iff.mp hside
  rw [hubSide, ((h.view done hdone).hub sessionID s hin).mp hs, Option.map_some, hin]

theorem Agree.leaseSide_inside (hside : leaseSide i n₁ done sessionID = some true) :
    leaseSide i n₂ done sessionID = some true := by
  unfold leaseSide at hside
  split at hside
  · rename_i lease hlease
    split_ifs at hside with hcluster
    have hns : inScope i lease.ns = true := Option.some.inj hside
    simp only [leaseSide, (h.view done hdone).lease_eq hlease hns, ← h.clusterEnabled, hcluster,
      if_true, hns]
  · cases hside

theorem Agree.visible_of_visible (hscoped : i.isGlobal = false) (hid : sessionID ≠ "")
    (hshadow : Shadowed i n₂ done sessionID → Shadowed i n₁ done sessionID)
    (hvisible : sessionVisibleTo n₁ i done sessionID = true) :
    sessionVisibleTo n₂ i done sessionID = true := by
  rw [sessionVisibleTo_iff hscoped hid] at hvisible ⊢
  rcases hvisible with hhub | ⟨hhub, hlease⟩
  · exact .inl (h.hubSide_inside hdone hhub)
  · have hlease₂ := h.leaseSide_inside hdone hlease
    cases hside : hubSide i n₂ done sessionID with
    | none => exact .inr ⟨rfl, hlease₂⟩
    | some side =>
      cases side with
      | true => exact .inl rfl
      | false =>
        -- the first node would have the session outside the scope as well
        have := (hshadow ⟨hside, hlease₂⟩).1
        rw [hhub] at this
        cases this

theorem Agree.visible_eq (hscoped : i.isGlobal = false)
    (hshadow : Shadowed i n₁ done sessionID ↔ Shadowed i n₂ done sessionID) :
    sessionVisibleTo n₁ i done sessionID = sessionVisibleTo n₂ i done sessionID := by
  by_cases hid : sessionID = ""
  · simp [hid, sessionVisibleTo, hscoped, apiSessionNamespace]
  · exact Bool.eq_iff_iff.mpr ⟨h.visible_of_visible hdone hscoped hid hshadow.mpr,
      h.symm.visible_of_visible hdone hscoped hid hshadow.mp⟩

theorem Agree.resolve_eq_of_hub {s : Session} (h₁ : ¬ Outside i n₁ done sessionID)
    (hid : sessionID ≠ "") (hhub : (n₁.view done).hub sessionID = some s) :
    n₁.resolveSessionLease done sessionID = n₂.resolveSessionLease done sessionID := by
  obtain ⟨lease, hlease, hns⟩ := resolveSessionLease_of_hub hid hhub
  have hin : inScope i s.ns = true := hns ▸ inScope_of_not_outside h₁ hlease
  simp only [resolveSessionLease, hhub, ((h.view done hdone).hub sessionID s hin).mp hhub,
    clusterSessionLease, h.clusterEnabled, h.nodeID, h.incarnationID]

theorem Agree.resolve_eq (h₁ : ¬ Outside i n₁ done sessionID)
    (h₂ : ¬ Outside i n₂ done sessionID) :
    n₁.resolveSessionLease done sessionID = n₂.resolveSessionLease done sessionID := by
  by_cases hid : sessionID = ""
  · rw [hid, resolveSessionLease_empty, resolveSessionLease_empty]
  cases hhub₁ : (n₁.view done).hub sessionID with
  | some s => exact h.resolve_eq_of_hub hdone h₁ hid hhub₁
  | none =>
    cases hhub₂ : (n₂.view done).hub sessionID with
    | some s => exact (h.symm.resolve_eq_of_hub hdone h₂ hid hhub₂).symm
    | none =>
      have hin₁ := fun lease => @inScope_of_not_outside _ _ _ lease _ h₁
      have hin₂ := fun lease => @inScope_of_not_outside _ _ _ lease _ h₂
      rw [resolveSessionLease_of_directory hid hhub₁] at hin₁ ⊢
      rw [resolveSessionLease_of_directory hid hhub₂] at hin₂ ⊢
      rw [← h.clusterEnabled] at hin₂ ⊢
      cases hcluster : n₁.clusterEnabled with
      | false => rfl
      | true =>
        rw [hcluster] at hin₁ hin₂
        rcases (h.view done hdone).leases sessionID with heq | ⟨hhidden₁, hhidden₂⟩
        · exact heq
        · -- neither directory has a lease that may be found
          have hnone : ∀ {found : Except Unit (Option SessionLease)}, Hidden i found →
              (∀ lease, found = .ok (some lease) → inScope i lease.ns = true) →
              found = .ok none := by
            rintro (_ | _ | lease) hhidden hin
            · cases hhidden
            · rfl
            · rw [Hidden, hin lease rfl] at hhidden
              cases hhidden
          exact (hnone hhidden₁ hin₁).trans (hnone hhidden₂ hin₂).symm

theorem Agree.mem_of_mem_expand (hns : inScope i ns = true)
    (hmem : sessionID ∈ n₁.localUserSessions done ns userID ++ n₁.indexedUserSessions done ns userID) :
    sessionID ∈ n₂.localUserSessions done ns userID ++ n₂.indexedUserSessions done ns userID := by
  have hview := h.view done hdone
  rw [mem_append] at hmem ⊢
  rcases hmem with hmem | hmem
  · obtain ⟨s, hs, rfl⟩ := mem_map.mp hmem
    obtain ⟨hs, hmatch⟩ := mem_filter.mp hs
    have hin : inScope i s.ns = true := (of_decide_eq_true hmatch).2 ▸ hns
    exact .inl (mem_map.mpr ⟨s, mem_filter.mpr ⟨(hview.registered ns userID s hin).mp hs, hmatch⟩, rfl⟩)
  · refine .inr ?_
    rw [indexedUserSessions] at hmem ⊢
    rw [← h.clusterEnabled]
    split_ifs at hmem ⊢
    · cases hmem
    · obtain ⟨hlisted, hmatch⟩ := mem_filter.mp hmem
      refine mem_filter.mpr ⟨(hview.index ns userID hns sessionID).mp hlisted, ?_⟩
      split at hmatch
      · rename_i lease hlease
        have hin : inScope i lease.ns = true := (of_decide_eq_true hmatch).2 ▸ hns
        rw [hview.lease_eq hlease hin]
        exact hmatch
      · cases hmatch

theorem Agree.expand_eq (hns : userID = "" ∨ inScope i ns = true) :
    n₁.expandUserSessions done ns userID = n₂.expandUserSessions done ns userID := by
  unfold expandUserSessions
  split_ifs with huser
  · rfl
  · have hin := hns.resolve_left huser
    exact sortedIDs_congr fun _ =>
      ⟨h.mem_of_mem_expand hdone hin, h.symm.mem_of_mem_expand hdone hin⟩

end

end Resolve

section Step

/-- What a handler may call: it addresses IDs that it has admitted, lists users of namespaces in
scope, and uses channels in scope. -/
def Allowed (i : APIIdentity) (past : List (Event Op.Answer)) : Op → Prop
  | .sessionVisibleTo _ => True
  | .expandUserSessions ns userID => userID = "" ∨ inScope i ns = true
  | .publishToSession sessionID _ | .disconnectSession sessionID _ _ => Admitted i past sessionID
  | .subscribeSession sessionID channel | .unsubscribeSession sessionID channel =>
    Admitted i past sessionID ∧ i.allowsChannel channel = true
  | .apiCanPublish _ => True
  | .publishForAPI channel _ _ => i.allowsChannel channel = true

variable (h : Agree i n₁ n₂) (hdone : Confined i done)
include h hdone

theorem Agree.dispatch_agree {cmd : Command} (h₁ : ¬ Outside i n₁ done sessionID)
    (h₂ : ¬ Outside i n₂ done sessionID) (hcmd : cmd.inScope i = true) :
    n₁.dispatchSessionCommand done sessionID cmd = n₂.dispatchSessionCommand done sessionID cmd ∧
      Confined i (n₁.dispatchSessionCommand done sessionID cmd).2 := by
  rw [dispatchSessionCommand, dispatchSessionCommand, ← h.resolve_eq hdone h₁ h₂]
  split
  · exact ⟨rfl, hdone⟩
  cases hfound : n₁.resolveSessionLease done sessionID with
  | error err => exact ⟨rfl, hdone⟩
  | ok found =>
    cases found with
    | none => exact ⟨rfl, hdone⟩
    | some lease =>
      have hroute : n₁.route lease = n₂.route lease := by
        rw [route, route, h.clusterEnabled, h.nodeID, h.incarnationID]
      have heffect : (Effect.command (n₁.route lease) sessionID lease cmd).inScope i = true := by
        rw [Effect.inScope, inScope_of_not_outside h₁ hfound, hcmd]
        rfl
      simp only [← hroute, h.answer done _ hdone heffect]
      exact ⟨trivial, forall_mem_snoc hdone heffect⟩

theorem Agree.channelCommand_agree {cmd : String → Command} (h₁ : ¬ Outside i n₁ done sessionID)
    (h₂ : ¬ Outside i n₂ done sessionID) (hcmd : (cmd channel).inScope i = true) :
    n₁.channelCommand done cmd i sessionID channel =
        n₂.channelCommand done cmd i sessionID channel ∧
      Confined i (n₁.channelCommand done cmd i sessionID channel).2 := by
  rw [channelCommand, channelCommand, h.authorizer]
  split
  · exact ⟨rfl, hdone⟩
  · exact h.dispatch_agree hdone h₁ h₂ hcmd

theorem Agree.perform_agree (hscoped : i.isGlobal = false) (op : Op) (hallowed : Allowed i past op)
    (hsep : Separate i n₁ n₂ past done op) :
    perform n₁ i op done = perform n₂ i op done ∧ Confined i (perform n₁ i op done).2 := by
  cases op with
  | sessionVisibleTo sessionID =>
    exact ⟨by simp only [perform, h.visible_eq hdone hscoped hsep], hdone⟩
  | expandUserSessions ns userID =>
    exact ⟨by simp only [perform, h.expand_eq hdone hallowed], hdone⟩
  | publishToSession sessionID message | disconnectSession sessionID code reason =>
    obtain ⟨h₁, h₂⟩ := hsep sessionID rfl hallowed
    exact h.dispatch_agree hdone h₁ h₂ rfl
  | subscribeSession sessionID channel | unsubscribeSession sessionID channel =>
    obtain ⟨h₁, h₂⟩ := hsep sessionID rfl hallowed.1
    exact h.channelCommand_agree hdone h₁ h₂ hallowed.2
  | apiCanPublish channel => exact ⟨by simp only [perform, h.authorizer], hdone⟩
  | publishForAPI channel pub addHistory =>
    have heffect : (Effect.publish channel pub addHistory).inScope i = true := hallowed
    simp only [perform, publishForAPI, h.authorizer, h.answer done _ hdone heffect]
    split
    · exact ⟨trivial, hdone⟩
    · exact ⟨trivial, forall_mem_snoc hdone heffect⟩

end Step

section ScopeLayer

theorem Admitted.mono (hsub : past ⊆ later) (h : Admitted i past sessionID) :
    Admitted i later sessionID := by
  obtain ⟨event, hmem, hadmits⟩ := any_eq_true.mp h
  exact any_eq_true.mpr ⟨event, hsub hmem, hadmits⟩

theorem admitted_snoc {event : Event Op.Answer} (h : admits i sessionID event = true) :
    Admitted i (past ++ [event]) sessionID :=
  any_eq_true.mpr ⟨event, mem_append_right _ mem_cons_self, h⟩

def AllAdmitted (i : APIIdentity) (past : List (Event Op.Answer)) (sessions : List String) : Prop :=
  ∀ sessionID ∈ sessions, Admitted i past sessionID

theorem AllAdmitted.mono (hsub : past ⊆ later) (h : AllAdmitted i past sessions) :
    AllAdmitted i later sessions :=
  fun sessionID hmem => (h sessionID hmem).mono hsub

theorem AllAdmitted.filter {p : String → Bool} (h : AllAdmitted i past sessions) :
    AllAdmitted i past (sessions.filter p) :=
  fun sessionID hmem => h sessionID (mem_filter.mp hmem).1

theorem AllAdmitted.append {others : List String} (h : AllAdmitted i past sessions)
    (hothers : AllAdmitted i past others) : AllAdmitted i past (sessions ++ others) :=
  forall_mem_append.mpr ⟨h, hothers⟩

theorem visibleSessions_wp (sessions : List String) :
    (visibleSessions sessions).wp (Allowed i) (AllAdmitted i) past := by
  induction sessions generalizing past with
  | nil => exact fun _ hmem => absurd hmem not_mem_nil
  | cons sessionID sessions ih =>
    rw [visibleSessions, wp_bind, wp_perform]
    refine ⟨trivial, fun visible => ?_⟩
    rw [wp_bind]
    refine wp_mono ih fun later kept hsub hkept => ?_
    cases visible with
    | false => exact hkept
    | true =>
      have hadmitted : Admitted i later sessionID :=
        (admitted_snoc (i := i) (by simp [admits])).mono hsub
      exact forall_mem_cons.mpr ⟨hadmitted, hkept⟩

structure Destination.Scoped (i : APIIdentity) (past : List (Event Op.Answer))
    (dest : Destination) : Prop where
  sessions : AllAdmitted i past (dest.sessions.filter (· ≠ ""))
  users : dest.users ≠ [] → dest.ns ≠ "" → i.allowsNamespace dest.ns = true
  channels : ∀ channel ∈ dest.channels, i.allowsChannel channel = true

theorem Destination.Scoped.mono {dest : Destination} (hsub : past ⊆ later)
    (h : dest.Scoped i past) : dest.Scoped i later :=
  ⟨h.sessions.mono hsub, h.users, h.channels⟩

/-- A scope wrapper gives `P` of what it lets through. -/
def Passing {α : Type} (P : List (Event Op.Answer) → α → Prop) (past : List (Event Op.Answer)) :
    Except Status α → Prop
  | .error _ => True
  | .ok a => P past a

def PublicationScoped (i : APIIdentity) (past : List (Event Op.Answer)) (pub : Publication) : Prop :=
  ∀ dest, pub.destination = some dest → dest.Scoped i past

def DisconnectRequest.destination (req : DisconnectRequest) : Destination :=
  ⟨req.sessions, [], req.users, req.ns⟩

def SubscribeRequest.destination (req : SubscribeRequest) : Destination :=
  ⟨[req.sessionID], req.channels, if req.userID = "" then [] else [req.userID], req.ns⟩

theorem allows_of_not_denied (h : ¬ (users ≠ [] ∧ ns ≠ "" ∧ (!i.allowsNamespace ns) = true)) :
    users ≠ [] → ns ≠ "" → i.allowsNamespace ns = true := by
  intro husers hns
  by_contra hdenied
  exact h ⟨husers, hns, by simpa using hdenied⟩

variable (hscoped : i.isGlobal = false)
include hscoped

theorem scopeChannels_allows {channels kept erased : List String}
    (h : scopeChannels i channels = .ok (kept, erased)) :
    ∀ channel ∈ kept, i.allowsChannel channel = true := by
  induction channels generalizing kept erased with
  | nil =>
    cases h
    intro channel hmem
    cases hmem
  | cons first channels ih =>
    rw [scopeChannels] at h
    split at h
    · cases h
    split at h
    · cases h
    next hrest =>
      split_ifs at h with hdenied
      · cases h
        exact ih hrest
      · cases h
        exact forall_mem_cons.mpr ⟨by simpa [hscoped] using hdenied, ih hrest⟩

theorem scopeDestination_wp (dest : Destination) :
    (scopeDestination i dest).wp (Allowed i)
      (Passing fun later out => out.1.Scoped i later) past := by
  unfold scopeDestination
  split
  · trivial
  next hallows =>
    split
    · trivial
    next hchannels =>
      rw [hscoped, if_neg Bool.false_ne_true, wp_bind]
      refine wp_mono (visibleSessions_wp dest.sessions) fun later kept _ hkept => ?_
      exact ⟨hkept.filter, allows_of_not_denied hallows, scopeChannels_allows hscoped hchannels⟩

theorem scopePublication_wp (pub : Publication) :
    (scopePublication i pub).wp (Allowed i)
      (Passing fun later out => PublicationScoped i later out.1) past := by
  unfold scopePublication
  cases hdest : pub.destination with
  | none =>
    intro dest hsome
    cases hdest.symm.trans hsome
  | some dest =>
    rw [wp_bind]
    refine wp_mono (scopeDestination_wp hscoped dest) fun later out _ hout => ?_
    cases out with
    | error status => trivial
    | ok out =>
      intro dest hsome
      cases hsome
      exact hout

theorem scopePublications_wp (pubs : List Publication) :
    (scopePublications i pubs).wp (Allowed i)
      (Passing fun later out => ∀ pub ∈ out.1, PublicationScoped i later pub) past := by
  induction pubs generalizing past with
  | nil => exact fun _ hmem => absurd hmem not_mem_nil
  | cons pub pubs ih =>
    rw [scopePublications, wp_bind]
    refine wp_mono (scopePublication_wp hscoped pub) fun later out _ hout => ?_
    cases out with
    | error status => trivial
    | ok first =>
      simp only [wp_bind]
      refine wp_mono ih fun last rest hsub hrest => ?_
      cases rest with
      | error status => trivial
      | ok rest =>
        refine forall_mem_cons.mpr ⟨fun dest hdest => (hout dest hdest).mono hsub, hrest⟩

theorem scopePublish_wp (req : PublishRequest) :
    (scopePublish i req).wp (Allowed i)
      (Passing fun later out => ∀ pub ∈ out.1.publications, PublicationScoped i later pub) past := by
  unfold scopePublish
  split
  · trivial
  · rw [wp_bind]
    refine wp_mono (scopePublications_wp hscoped req.publications) fun later out _ hout => ?_
    cases out with
    | error status => trivial
    | ok out => exact hout

theorem scopeDisconnect_wp (req : DisconnectRequest) :
    (scopeDisconnect i req).wp (Allowed i)
      (Passing fun later out => out.destination.Scoped i later) past := by
  unfold scopeDisconnect
  split
  · trivial
  split
  · trivial
  next hallows =>
    rw [hscoped, if_neg Bool.false_ne_true, wp_bind]
    refine wp_mono (visibleSessions_wp req.sessions) fun later kept _ hkept => ?_
    exact ⟨hkept.filter, allows_of_not_denied hallows, forall_mem_nil _⟩

theorem scopeSubscription_wp (method : String) (req : SubscribeRequest) :
    (scopeSubscription method i req).wp (Allowed i)
      (Passing fun later out => out.1.destination.Scoped i later) past := by
  unfold scopeSubscription scopeSubscribeTargets
  split
  · trivial
  split
  · trivial
  next hallows =>
    split
    · trivial
    next hchannels =>
      have hkept := scopeChannels_allows hscoped hchannels
      have husers : (if req.userID = "" then [] else [req.userID]) ≠ [] → req.ns ≠ "" →
          i.allowsNamespace req.ns = true := by
        intro huser hns
        by_contra hdenied
        exact hallows ⟨fun hempty => huser (if_pos hempty), hns, by simpa using hdenied⟩
      rw [hscoped, Bool.false_or]
      split
      · rename_i hempty
        refine ⟨?_, husers, hkept⟩
        simp [SubscribeRequest.destination, of_decide_eq_true hempty, AllAdmitted]
      · rw [wp_bind, wp_perform]
        refine ⟨trivial, fun visible => ?_⟩
        cases visible with
        | false => exact ⟨by simp [SubscribeRequest.destination, AllAdmitted], husers, hkept⟩
        | true =>
          refine ⟨AllAdmitted.filter fun sessionID hmem => ?_, husers, hkept⟩
          rw [mem_singleton.mp hmem]
          exact admitted_snoc (by simp [admits])

end ScopeLayer

section Handlers

theorem expandUsers_wp (husers : ∀ userID ∈ users, userID = "" ∨ inScope i ns = true) :
    (expandUsers ns users).wp (Allowed i) (AllAdmitted i) past := by
  induction users generalizing past with
  | nil => exact fun _ hmem => absurd hmem not_mem_nil
  | cons userID users ih =>
    obtain ⟨hfirst, hrest⟩ := forall_mem_cons.mp husers
    rw [expandUsers, wp_bind, wp_perform]
    refine ⟨hfirst, fun expanded => ?_⟩
    rw [wp_bind]
    refine wp_mono (ih hrest) fun later rest hsub hadmitted => ?_
    refine AllAdmitted.append (fun sessionID hmem => ?_) hadmitted
    refine (admitted_snoc (i := i) ?_).mono hsub
    simpa [admits, hfirst] using hmem

theorem unionSessions_wp {explicit : List String}
    (hexplicit : AllAdmitted i past (explicit.filter (· ≠ "")))
    (husers : ∀ userID ∈ users, userID = "" ∨ inScope i ns = true) :
    (unionSessions explicit users ns).wp (Allowed i) (AllAdmitted i) past := by
  rw [unionSessions, wp_bind]
  refine wp_mono (expandUsers_wp husers) fun later expanded hsub hexpanded => ?_
  intro sessionID hmem
  rw [mem_sortedIDs] at hmem
  exact (hexplicit.mono hsub).append hexpanded sessionID hmem

theorem checkUsers_eq_none {id : String} (h : checkUsers id ns users = none) :
    ∀ userID ∈ users, ns ≠ "" := by
  cases users with
  | nil => exact nofun
  | cons first users =>
    intro _ _ hns
    by_cases hfirst : first = "" <;> simp [checkUsers, hfirst, hns] at h

theorem Destination.Scoped.inScope_users {dest : Destination} (h : dest.Scoped i past)
    (hns : ∀ userID ∈ dest.users, dest.ns ≠ "") :
    ∀ userID ∈ dest.users, userID = "" ∨ inScope i dest.ns = true := by
  intro userID hmem
  have hne := hns userID hmem
  exact .inr (by simp [inScope, hne, h.users (ne_nil_of_mem hmem) hne])

theorem publishOne_wp {pub : Publication} (t : Tally)
    (hcheck : checkPublication pub = none) (hpub : PublicationScoped i past pub) :
    (publishOne t pub).wp (Allowed i) (fun _ _ => True) past := by
  unfold publishOne
  split
  · trivial
  split
  · trivial
  next dest hdest =>
    split
    · trivial
    have hscoped := hpub dest hdest
    simp only [checkPublication, hdest] at hcheck
    rw [wp_bind]
    refine wp_mono (unionSessions_wp hscoped.sessions
      (hscoped.inScope_users (checkUsers_eq_none hcheck))) fun later sessions _ hsessions => ?_
    rw [wp_bind]
    refine wp_mono (wp_foldlM (I := fun past _ => AllAdmitted i past sessions)
      (fun past t sessionID hmem hadmitted => ?_) hsessions) fun last t _ _ => ?_
    · rw [publishToOne, wp_bind, wp_perform]
      exact ⟨hadmitted sessionID hmem, fun _ => hadmitted.mono (subset_append_left past _)⟩
    · refine wp_foldlM (fun past t channel hmem _ => ?_) trivial
      refine ⟨trivial, fun allowed => ?_⟩
      cases allowed with
      | false => trivial
      | true => exact ⟨hscoped.channels channel hmem, fun _ => trivial⟩

theorem publishScoped_wp {req : PublishRequest} (scope : PublishScopeResult)
    (hreq : ∀ pub ∈ req.publications, PublicationScoped i past pub) :
    (publishScoped req scope).wp (Allowed i) (fun _ _ => True) past := by
  unfold publishScoped
  cases hcheck : req.publications.findSome? checkPublication with
  | some status => trivial
  | none =>
    rw [wp_bind]
    refine wp_mono (wp_foldlM
      (I := fun past _ => ∀ pub ∈ req.publications, PublicationScoped i past pub)
      (fun past t pub hmem hscoped => ?_) hreq) fun _ _ _ _ => trivial
    refine wp_mono (publishOne_wp t (findSome?_eq_none_iff.mp hcheck pub hmem)
      (hscoped pub hmem)) fun later _ hsub _ other hother dest hdest => ?_
    exact (hscoped other hother dest hdest).mono hsub

theorem disconnectScoped_wp {req : DisconnectRequest} (hreq : req.destination.Scoped i past) :
    (disconnectScoped req).wp (Allowed i) (fun _ _ => True) past := by
  unfold disconnectScoped
  split
  · trivial
  split
  · trivial
  next hns =>
    have husers := hreq.inScope_users fun userID hmem hempty => hns ⟨ne_nil_of_mem hmem, hempty⟩
    rw [wp_bind]
    refine wp_mono (unionSessions_wp hreq.sessions husers) fun later sessions _ hsessions => ?_
    rw [wp_bind]
    refine wp_mono (wp_foldlM (I := fun past _ => AllAdmitted i past sessions)
      (fun past results sessionID hmem hadmitted => ?_) hsessions) fun _ _ _ _ => trivial
    exact ⟨hadmitted sessionID hmem, fun _ => hadmitted.mono (subset_append_left past _)⟩

theorem trySessions_wp {call : String → Handler (Except Unit Bool)}
    (hcall : ∀ past id, Admitted i past id → (call id).wp (Allowed i) (fun _ _ => True) past)
    (hsessions : AllAdmitted i past sessions) :
    (trySessions call sessions).wp (Allowed i) (fun _ _ => True) past := by
  induction sessions generalizing past with
  | nil => trivial
  | cons sessionID sessions ih =>
    obtain ⟨hfirst, hrest⟩ := forall_mem_cons.mp hsessions
    rw [trySessions, wp_bind]
    refine wp_mono (hcall past sessionID hfirst) fun later result hsub _ => ?_
    split
    · trivial
    · exact ih (AllAdmitted.mono hsub hrest)

theorem subscriptionScoped_wp {call : String → String → Handler (Except Unit Bool)}
    (hcall : ∀ past id channel, Admitted i past id → i.allowsChannel channel = true →
      (call id channel).wp (Allowed i) (fun _ _ => True) past)
    {req : SubscribeRequest} (scope : SubscribeScopeResult) (hreq : req.destination.Scoped i past) :
    (subscriptionScoped call req scope).wp (Allowed i) (fun _ _ => True) past := by
  unfold subscriptionScoped
  split
  · trivial
  split
  · trivial
  split
  · trivial
  next hns =>
    have husers : ∀ userID ∈ [req.userID], userID = "" ∨ inScope i req.ns = true := by
      intro userID hmem
      rw [mem_singleton.mp hmem]
      by_cases huser : req.userID = ""
      · exact .inl huser
      · exact hreq.inScope_users (fun _ _ hempty => hns ⟨huser, hempty⟩) req.userID
          (by simp [SubscribeRequest.destination, huser])
    rw [wp_bind]
    refine wp_mono (unionSessions_wp hreq.sessions husers) fun later sessions _ hsessions => ?_
    rw [wp_bind]
    refine wp_mono (wp_foldlM (I := fun past _ => AllAdmitted i past sessions)
      (fun past results channel hmem hadmitted => ?_) hsessions) fun _ _ _ _ => trivial
    rw [subscribeChannel, wp_bind]
    refine wp_mono (trySessions_wp (fun past id hid =>
      hcall past id channel hid (hreq.channels channel hmem)) hadmitted) fun later _ hsub _ => ?_
    exact hadmitted.mono hsub

theorem afterScope_wp {α : Type} {scope : Handler (Except Status α)} {body : α → Handler Response}
    {P : List (Event Op.Answer) → α → Prop} (hscope : scope.wp (Allowed i) (Passing P) past)
    (hbody : ∀ later out, P later out → (body out).wp (Allowed i) (fun _ _ => True) later) :
    (afterScope scope body).wp (Allowed i) (fun _ _ => True) past := by
  rw [afterScope, wp_bind]
  refine wp_mono hscope fun later out _ hout => ?_
  cases out with
  | error status => trivial
  | ok out => exact hbody later out hout

theorem handler_wp (hscoped : i.isGlobal = false) (req : Request) :
    (handler i req).wp (Allowed i) (fun _ _ => True) past := by
  cases req with
  | publish req =>
    exact afterScope_wp (scopePublish_wp hscoped req) fun _ out hout => publishScoped_wp out.2 hout
  | disconnect req =>
    exact afterScope_wp (scopeDisconnect_wp hscoped req) fun _ _ hout => disconnectScoped_wp hout
  | subscribe req =>
    refine afterScope_wp (scopeSubscription_wp hscoped "Subscribe" req) fun _ out hout => ?_
    refine subscriptionScoped_wp (fun _ _ _ hid hchannel => ?_) out.2 hout
    exact ⟨⟨hid, hchannel⟩, fun _ => trivial⟩
  | unsubscribe req =>
    refine afterScope_wp (scopeSubscription_wp hscoped "Unsubscribe" req) fun _ out hout => ?_
    refine subscriptionScoped_wp (fun _ _ _ hid hchannel => ?_) out.2 hout
    exact ⟨⟨hid, hchannel⟩, fun _ => trivial⟩

end Handlers

section Main

def tenantIdentity : APIIdentity :=
  ⟨"k", ["a"], {.sessionAct, .userFanout}⟩

/-- The directory leases `x` to the session of tenant `a` at another node. -/
def tenantRuntime (hub : List Effect → String → Option Session) : Runtime where
  clusterEnabled := true
  nodeID := "n1"
  incarnationID := "i1"
  authorizer := ⟨Channel.defaultChannelPolicy, []⟩
  view done := {
    hub := hub done
    registeredByUser := fun _ _ => []
    getSessionLease := fun sessionID =>
      if sessionID = "x" then .ok (some ⟨"x", "n2", "i2", "u", "a"⟩) else .ok none
    listUserSessions := fun ns userID => if ns = "a" ∧ userID = "u" then ["x"] else [] }
  answer done _ := if done = [] then .error () else .ok true

def foreignHub (sessionID : String) : List Effect → String → Option Session :=
  fun _ id => if id = sessionID then some ⟨sessionID, "v", "b"⟩ else none

/-- The session `x` of tenant `a` is at this node until a send to it fails. -/
def closingHub (hub : List Effect → String → Option Session) :
    List Effect → String → Option Session :=
  fun done id => if id = "x" ∧ done = [] then some ⟨"x", "u", "a"⟩ else hub done id

theorem agree_of_hub {hub₁ hub₂ : List Effect → String → Option Session}
    (hhub : ∀ done id, hub₁ done id = hub₂ done id ∨
      (∀ s ∈ hub₁ done id, s.ns = "b") ∧ ∀ s ∈ hub₂ done id, s.ns = "b") :
    Agree tenantIdentity (tenantRuntime hub₁) (tenantRuntime hub₂) where
  clusterEnabled := rfl
  nodeID := rfl
  incarnationID := rfl
  authorizer := rfl
  view done _ := {
    hub := by
      intro id s hs
      have hne : s.ns ≠ "b" := by
        rintro heq
        rw [heq] at hs
        exact absurd hs (by decide)
      change hub₁ done id = some s ↔ hub₂ done id = some s
      rcases hhub done id with heq | ⟨hforeign₁, hforeign₂⟩
      · rw [heq]
      · exact iff_of_false (fun h => hne (hforeign₁ s h)) fun h => hne (hforeign₂ s h)
    registered := fun _ _ _ _ => Iff.rfl
    leases := fun _ => .inl rfl
    index := fun _ _ _ _ => Iff.rfl }
  answer _ _ _ _ := rfl

theorem foreignHub_ns (sessionID : String) (done : List Effect) (id : String) :
    ∀ s ∈ foreignHub sessionID done id, s.ns = "b" := by
  intro s hs
  obtain ⟨-, rfl⟩ : id = sessionID ∧ (⟨sessionID, "v", "b"⟩ : Session) = s := by
    simpa [foreignHub] using hs
  rfl

def tenantPublish : Request :=
  .publish ⟨[⟨"p1", [], none, none, some ⟨["x", "y"], [], [], ""⟩⟩,
    ⟨"p2", [], none, none, some ⟨["x"], [], ["u"], "a"⟩⟩]⟩

end Main

end MessageLoop.ServerAPI
