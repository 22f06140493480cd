import MessageLoop.Authz.Identity
import Mathlib.Algebra.Group.Nat.Defs
import Mathlib.Data.Finset.Lattice.Basic

/-!
What becomes of a key that the `api_auth` proxy has accepted (`internal/serverapi/auth.go`): its
capability names, namespaces and maximal age are clamped to what the node allows.

Durations are nanoseconds.
-/

namespace MessageLoop.ServerAPI

open Authz Topics

def second : Int := 1000000000

def closedCapabilityNames : List (String × Capability) :=
  [("presence.large_snapshot", .presenceLargeSnapshot),
    ("survey.bypass_gate", .surveyBypassGate),
    ("history.read", .historyRead),
    ("presence.read", .presenceRead),
    ("channels.list", .channelsList),
    ("session.act", .sessionAct),
    ("user.fanout", .userFanout),
    ("subscribe.any", .subscribeAny),
    ("pattern.global", .patternGlobal)]

structure APIKeyInfo where
  keyID : String
  namespaces : List String
  capabilities : List String
  maxAgeSeconds : Int64
  deriving DecidableEq, Repr

/-- `cacheTTL` is as configured; zero and less stand for the default. -/
structure AuthOptions where
  authTokens : List String
  allowInsecure : Bool
  ceiling : Finset Capability
  cacheTTL : Int
  deriving DecidableEq

def staticTokenKeyID : String := "static-token"

def insecureKeyID : String := "insecure"

def unknownKeyID : String := "unknown"

def defaultAuthCacheTTL : Int := 30 * second

def minCacheTTL : Int := 1 * second

def AuthOptions.ttl (o : AuthOptions) : Int :=
  if o.cacheTTL ≤ 0 then defaultAuthCacheTTL else o.cacheTTL

def clampCapabilities (ceiling : Finset Capability) (names : List String) : Finset Capability :=
  (names.filterMap fun name => closedCapabilityNames.lookup name).toFinset ∩ ceiling

/-- The exact namespaces of a grant: `*` is noted apart, invalid entries are dropped. -/
def exactNamespaces (granted : List String) : List String :=
  granted.filter fun ns => ns ≠ "*" && validNamespace ns

def clampNamespaces (granted : List String) : List String :=
  if granted = [] then []
  else if granted.contains "*" && exactNamespaces granted = [] then ["*"]
  else if granted.contains "*" then []
  else exactNamespaces granted

/-- The product of the maximal age and a second wraps around at 64 bits. -/
def positiveTTL (ttl : Int) (maxAgeSeconds : Int64) : Int :=
  let maxAge := (maxAgeSeconds * 1000000000).toInt
  let ttl := if 0 < maxAgeSeconds ∧ maxAge < ttl then maxAge else ttl
  if ttl < minCacheTTL then minCacheTTL else ttl

def clampIdentity (o : AuthOptions) (info : APIKeyInfo) : APIIdentity × Int :=
  (⟨info.keyID, clampNamespaces info.namespaces, clampCapabilities o.ceiling info.capabilities⟩,
    positiveTTL o.ttl info.maxAgeSeconds)

def verifiedIdentity (o : AuthOptions) (info : APIKeyInfo) : APIIdentity :=
  let identity := (clampIdentity o info).1
  { identity with keyID := if identity.keyID = "" then unknownKeyID else identity.keyID }

def superadminPrincipalUserID : String := "admin"

/-- The grant names `*` and apart from it only entries that are dropped. -/
def OnlyWildcard (granted : List String) : Prop :=
  "*" ∈ granted ∧ ∀ ns ∈ granted, ns ≠ "*" → validNamespace ns = false

section Clamp
variable {o : AuthOptions} {info : APIKeyInfo} {granted : List String} {ns : String}

theorem mem_exactNamespaces :
    ns ∈ exactNamespaces granted ↔ ns ∈ granted ∧ ns ≠ "*" ∧ validNamespace ns = true := by
  simp [exactNamespaces]

theorem onlyWildcard_iff :
    OnlyWildcard granted ↔ "*" ∈ granted ∧ exactNamespaces granted = [] := by
  simp [OnlyWildcard, exactNamespaces, List.filter_eq_nil_iff]

theorem mem_clampNamespaces :
    ns ∈ clampNamespaces granted ↔
      (ns = "*" ∧ OnlyWildcard granted) ∨ ("*" ∉ granted ∧ ns ∈ exactNamespaces granted) := by
  rw [onlyWildcard_iff]
  unfold clampNamespaces
  by_cases hnil : granted = []
  · simp [hnil, exactNamespaces]
  · by_cases hstar : "*" ∈ granted <;> by_cases hexact : exactNamespaces granted = [] <;>
      simp [hnil, hstar, hexact]

@[simp] theorem namespaces_verifiedIdentity :
    (verifiedIdentity o info).namespaces = clampNamespaces info.namespaces := rfl

@[simp] theorem keyID_verifiedIdentity :
    (verifiedIdentity o info).keyID = if info.keyID = "" then unknownKeyID else info.keyID := rfl

theorem caps_verifiedIdentity : (verifiedIdentity o info).caps ⊆ o.ceiling :=
  Finset.inter_subset_right

theorem isGlobal_verifiedIdentity :
    (verifiedIdentity o info).isGlobal = true ↔ OnlyWildcard info.namespaces := by
  simp only [APIIdentity.isGlobal, namespaces_verifiedIdentity, List.contains_iff_mem,
    mem_clampNamespaces, mem_exactNamespaces]
  simp

theorem granted_of_allowsNamespace (hglobal : (verifiedIdentity o info).isGlobal = false)
    (hallows : (verifiedIdentity o info).allowsNamespace ns = true) : ns ∈ info.namespaces := by
  simp only [APIIdentity.isGlobal, namespaces_verifiedIdentity] at hglobal
  simp only [APIIdentity.allowsNamespace, namespaces_verifiedIdentity, hglobal, Bool.false_or,
    List.contains_iff_mem, mem_clampNamespaces] at hallows
  rcases hallows with ⟨rfl, honly⟩ | ⟨-, hexact⟩
  · exact honly.1
  · exact (mem_exactNamespaces.mp hexact).1

theorem principal_eq_superadmin_iff (i : APIIdentity) :
    i.principal.userID = superadminPrincipalUserID ↔
      i.keyID = staticTokenKeyID ∨ i.keyID = insecureKeyID := by
  have hkey : "key:" ++ i.keyID ≠ superadminPrincipalUserID := by
    intro h
    have hlist := congrArg String.toList h
    simp [superadminPrincipalUserID] at hlist
  simp only [APIIdentity.principal]
  split_ifs with h
  · exact ⟨fun heq => absurd heq hkey, fun hor => absurd hor (not_or.mpr h)⟩
  · exact ⟨fun _ => or_iff_not_and_not.mpr h, fun _ => rfl⟩

theorem principal_verifiedIdentity :
    (verifiedIdentity o info).principal.userID = superadminPrincipalUserID ↔
      info.keyID = staticTokenKeyID ∨ info.keyID = insecureKeyID := by
  rw [principal_eq_superadmin_iff, keyID_verifiedIdentity]
  split_ifs with h
  · rw [h]
    decide
  · rfl

/-- An identity that the proxy grants is not widened exactly if `*` never stands beside entries
that are all dropped, and the key does not have the ID of a static token or of insecure access. -/
theorem identity_not_widened_iff (o : AuthOptions) (info : APIKeyInfo) :
    (((verifiedIdentity o info).isGlobal = true → info.namespaces = ["*"]) ∧
      ((verifiedIdentity o info).isGlobal = false →
        ∀ ns, (verifiedIdentity o info).allowsNamespace ns = true → ns ∈ info.namespaces) ∧
      (verifiedIdentity o info).principal.userID ≠ superadminPrincipalUserID) ↔
    (OnlyWildcard info.namespaces → info.namespaces = ["*"]) ∧
      info.keyID ≠ staticTokenKeyID ∧ info.keyID ≠ insecureKeyID := by
  rw [isGlobal_verifiedIdentity, ne_eq, principal_verifiedIdentity, not_or]
  constructor
  · rintro ⟨hglobal, -, hkey⟩
    exact ⟨hglobal, hkey⟩
  · rintro ⟨hglobal, hkey⟩
    exact ⟨hglobal, fun hscoped ns => granted_of_allowsNamespace hscoped, hkey⟩

/-- A wildcard beside an entry that is dropped gives a global identity, and a key that calls itself
`insecure` is given the principal of static tokens. -/
theorem identity_widened :
    let o : AuthOptions := ⟨[], false, ∅, 0⟩
    (verifiedIdentity o ⟨"k1", ["*", "Team A"], [], 0⟩).isGlobal = true ∧
      (verifiedIdentity o ⟨"insecure", ["a"], [], 0⟩).principal.userID =
        superadminPrincipalUserID := by
  decide

def maxAnswerAge (o : AuthOptions) (info : APIKeyInfo) : Int :=
  max second (if 0 < info.maxAgeSeconds then min o.ttl (info.maxAgeSeconds.toInt * second) else o.ttl)

theorem toInt_mul_second_le {n : Int64} (h : 0 < n) :
    (n * 1000000000).toInt ≤ n.toInt * second := by
  have hpos : 0 < n.toInt := Int64.lt_iff_toInt_lt.mp h
  have hsecond : (1000000000 : Int64).toInt = 1000000000 := by decide
  rw [Int64.toInt_mul, hsecond, Int.bmod_def]
  simp only [second]
  split_ifs <;> omega

theorem positiveTTL_le : positiveTTL o.ttl info.maxAgeSeconds ≤ maxAnswerAge o info := by
  have hfloor : minCacheTTL = second := by decide
  simp only [positiveTTL, maxAnswerAge, hfloor]
  by_cases hage : 0 < info.maxAgeSeconds
  · have hle := toInt_mul_second_le hage
    simp only [hage, true_and, if_true]
    split_ifs <;> omega
  · simp only [hage, false_and, if_false]
    split_ifs <;> omega

end Clamp

end MessageLoop.ServerAPI
