import MessageLoop.Lib.Maps
import MessageLoop.Lib.Transition
import MessageLoop.ServerAPI.Key

/-!
The authentication of Server API requests (`internal/serverapi/auth.go`): static tokens, insecure
access, and the proxy behind a bounded cache, with one call for the same credential at a time and a
breaker for errors in a row.

Requests interleave at the accesses to the shared resolver, each under its lock, at the reading of
the clock before the first of them and at the call to the proxy. Time is in nanoseconds.
-/

namespace MessageLoop.ServerAPI.Auth

open Authz

def negativeAuthCacheTTL : Int := 5 * second

def proxyErrorCacheTTL : Int := 2 * second

def breakerThreshold : Nat := 5

def breakerCooldown : Int := 30 * second

def maxAuthCacheEntries : Nat := 1024

def minProxyKeyChars : Nat := 20

inductive VerifyError where
  | keyRejected
  | proxyUnavailable
  | cancelled
  deriving DecidableEq, Repr

/-- The first value of each of the two metadata keys that carry a credential. -/
structure Metadata where
  authorization : Option String
  apiKey : Option String
  deriving DecidableEq, Repr

def bearerScheme : List Char := "Bearer ".toList

def bearerToken (value : String) : Option String :=
  let cs := value.toList
  if bearerScheme.length < cs.length ∧ cs.take bearerScheme.length = bearerScheme then
    some (String.ofList (cs.drop bearerScheme.length))
  else none

def credentialFromMetadata (md : Metadata) : Option String :=
  match md.authorization.bind bearerToken with
  | some token => some token
  | none => md.apiKey.filter (· ≠ "")

/-- What a call to the proxy comes to; `unavailable` is also the answer if none is assigned. -/
inductive Response where
  | unavailable
  | denied
  | allow (info : APIKeyInfo)
  deriving DecidableEq, Repr

abbrev Verdict := Except VerifyError APIIdentity

def Response.verdict (o : AuthOptions) : Response → Verdict
  | .unavailable => .error .proxyUnavailable
  | .denied => .error .keyRejected
  | .allow info => .ok (verifiedIdentity o info)

def Response.ttl (o : AuthOptions) : Response → Int
  | .unavailable => proxyErrorCacheTTL
  | .denied => negativeAuthCacheTTL
  | .allow info => (clampIdentity o info).2

structure CacheEntry where
  verdict : Verdict
  expireAt : Int

/-- A call to the proxy. Followers read `outcome` once it is there; the other fields record who
made the call, for which credential, when it was started and what the proxy answered. -/
structure VerifyCall where
  leader : Nat
  presented : String
  started : Int
  response : Option Response
  outcome : Option Verdict
  deriving DecidableEq

structure Resolver where
  entries : Finmap fun _ : String => CacheEntry
  inFlight : Finmap fun _ : String => Nat
  consecutiveErrors : Nat
  breakerOpenAt : Option Int

inductive Found where
  | hit (identity : APIIdentity)
  | refused (err : VerifyError)
  | attach (call : Nat)
  | lead

namespace Resolver

def recordProxyErrorLocked (r : Resolver) (clock : Int) : Resolver :=
  if breakerThreshold ≤ r.consecutiveErrors + 1 then
    { r with breakerOpenAt := some clock, consecutiveErrors := 0 }
  else { r with consecutiveErrors := r.consecutiveErrors + 1 }

def storeLocked (r : Resolver) (key : String) (e : CacheEntry) (evict : String) :
    Option Resolver :=
  if maxAuthCacheEntries ≤ r.entries.keys.card then
    if evict ∈ r.entries then
      some { r with entries := (r.entries.erase evict).insert key e }
    else none
  else some { r with entries := r.entries.insert key e }

def cached (r : Resolver) (verdict : Verdict) (clock : Int) : Resolver × Found :=
  match verdict with
  | .ok identity => (r, .hit identity)
  | .error .proxyUnavailable =>
    (r.recordProxyErrorLocked clock, .refused .proxyUnavailable)
  | .error err => (r, .refused err)

def join (r : Resolver) (key : String) : Resolver × Found :=
  match r.inFlight.lookup key with
  | some call => (r, .attach call)
  | none => (r, .lead)

def uncached (r : Resolver) (key : String) (now : Int) : Resolver × Found :=
  match r.breakerOpenAt with
  | some openAt =>
    if now - openAt < breakerCooldown then (r, .refused .proxyUnavailable)
    else { r with breakerOpenAt := none, consecutiveErrors := 0 }.join key
  | none => r.join key

/-- The first locked section of `Verify`; `now` was read before it. -/
def lookup (r : Resolver) (key : String) (now clock : Int) : Resolver × Found :=
  match r.entries.lookup key with
  | some e =>
    if now < e.expireAt then r.cached e.verdict clock
    else { r with entries := r.entries.erase key }.uncached key now
  | none => r.uncached key now

/-- The second one, in which the leader of a call publishes what the proxy answered. -/
def settle (o : AuthOptions) (r : Resolver) (key : String) (now clock : Int)
    (response : Response) (evict : String) : Option Resolver :=
  let r := { r with inFlight := r.inFlight.erase key }
  let r := match response with
    | .allow _ => { r with consecutiveErrors := 0, breakerOpenAt := none }
    | .denied => { r with consecutiveErrors := 0 }
    | .unavailable => r.recordProxyErrorLocked clock
  r.storeLocked key ⟨response.verdict o, now + response.ttl o⟩ evict

end Resolver

/-- Where a request stands. A handler that is invoked has its identity and the time. -/
inductive Pc where
  | start
  | gate (presented : String)
  | verify (presented : String)
  | lookup (presented : String) (now : Int)
  | calling (presented : String) (now : Int) (call : Nat)
  | answered (presented : String) (now : Int) (call : Nat) (response : Response)
  | waiting (presented : String) (call : Nat)
  | invoked (identity : APIIdentity) (time : Int)
  | rejected (message : String)
  deriving DecidableEq

structure Request where
  metadata : Metadata
  pc : Pc
  deriving DecidableEq

structure World where
  clock : Int
  resolver : Resolver
  calls : List VerifyCall

structure State where
  world : World
  requests : List Request

/-- The choices of the environment in a step of a request: whether a proxy is assigned, which entry
a full cache gives up, what the proxy answers, whether a follower's context is cancelled. -/
structure Env where
  assigned : Bool
  evict : String
  response : Response
  cancelled : Bool
  deriving DecidableEq, Repr

inductive Action where
  | arrive (metadata : Metadata)
  | tick (elapsed : Nat)
  | request (k : Nat) (env : Env)
  deriving DecidableEq, Repr

def missingCredential : String := "missing server API credential"

def invalidCredential : String := "invalid server API credential"

def rejectMessage : VerifyError → String
  | .proxyUnavailable =>
    "server API credential verification unavailable (verifier proxy unreachable)"
  | _ => invalidCredential

def insecureIdentity (o : AuthOptions) : APIIdentity := ⟨insecureKeyID, ["*"], o.ceiling⟩

def staticIdentity (o : AuthOptions) : APIIdentity := ⟨staticTokenKeyID, ["*"], o.ceiling⟩

def conclude (verdict : Verdict) (time : Int) : Pc :=
  match verdict with
  | .ok identity => .invoked identity time
  | .error err => .rejected (rejectMessage err)

def intercept (o : AuthOptions) (md : Metadata) (assigned : Bool) (clock : Int) : Pc :=
  match credentialFromMetadata md with
  | none =>
    if o.authTokens ≠ [] then .rejected missingCredential
    else if o.allowInsecure then .invoked (insecureIdentity o) clock
    else .rejected missingCredential
  | some presented =>
    if o.authTokens.any (· = presented) then .invoked (staticIdentity o) clock
    else if assigned = false then .rejected invalidCredential
    else if presented.utf8ByteSize < minProxyKeyChars then .gate presented
    else .verify presented

def VerifyCall.answer (c : VerifyCall) (response : Response) : VerifyCall :=
  { c with response := some response }

def VerifyCall.close (c : VerifyCall) (verdict : Verdict) : VerifyCall :=
  { c with outcome := some verdict }

section Machine
variable (o : AuthOptions) (sha256 : String → String)

def advance (w : World) (k : Nat) (q : Request) (env : Env) : Option (World × Pc) :=
  match q.pc with
  | .start => some (w, intercept o q.metadata env.assigned w.clock)
  | .gate presented =>
    (w.resolver.storeLocked (sha256 presented)
      ⟨.error .keyRejected, w.clock + negativeAuthCacheTTL⟩ env.evict).map fun r =>
        ({ w with resolver := r }, .rejected invalidCredential)
  | .verify presented => some (w, .lookup presented w.clock)
  | .lookup presented now =>
    let key := sha256 presented
    match w.resolver.lookup key now w.clock with
    | (r, .hit identity) => some ({ w with resolver := r }, .invoked identity w.clock)
    | (r, .refused err) => some ({ w with resolver := r }, .rejected (rejectMessage err))
    | (r, .attach call) => some ({ w with resolver := r }, .waiting presented call)
    | (r, .lead) =>
      let call := w.calls.length
      some ({ w with
          resolver := { r with inFlight := r.inFlight.insert key call }
          calls := w.calls ++ [⟨k, presented, w.clock, none, none⟩] },
        .calling presented now call)
  | .calling presented now call =>
    some ({ w with calls := w.calls.modify call (·.answer env.response) },
      .answered presented now call env.response)
  | .answered presented now call response =>
    (w.resolver.settle o (sha256 presented) now w.clock response env.evict).map fun r =>
      ({ w with
          resolver := r
          calls := w.calls.modify call (·.close (response.verdict o)) },
        conclude (response.verdict o) w.clock)
  | .waiting _ call =>
    if env.cancelled then some (w, .rejected (rejectMessage .cancelled))
    else (w.calls[call]?.bind VerifyCall.outcome).map fun verdict =>
      (w, conclude verdict w.clock)
  | .invoked _ _ | .rejected _ => none

def step (s : State) : Action → Option State
  | .arrive md => some { s with requests := s.requests ++ [⟨md, .start⟩] }
  | .tick elapsed => some { s with world := { s.world with clock := s.world.clock + elapsed } }
  | .request k env =>
    s.requests[k]?.bind fun q =>
      (advance o sha256 s.world k q env).map fun r =>
        ⟨r.1, s.requests.set k { q with pc := r.2 }⟩

abbrev run : State → List Action → Option State :=
  Transition.run (step o sha256)

end Machine

def newAPIAuthResolver (clock : Int) : State :=
  ⟨⟨clock, ⟨∅, ∅, 0, none⟩, []⟩, []⟩

def VerifyCall.deadline (o : AuthOptions) (c : VerifyCall) : Option Int :=
  match c.response with
  | some (.allow info) => some (c.started + maxAnswerAge o info)
  | _ => none

/-- A request is not held up: an entry that was fresh when it read the clock still is when it is
found, and a leader or a follower goes on while what the proxy answered may be used. -/
def Timely (o : AuthOptions) (sha256 : String → String) (w : World) : Pc → Prop
  | .lookup presented now =>
    ∀ e ∈ w.resolver.entries.lookup (sha256 presented), now < e.expireAt → w.clock < e.expireAt
  | .answered _ _ call _ | .waiting _ call =>
    ∀ c ∈ w.calls[call]?, ∀ deadline ∈ c.deadline o, w.clock ≤ deadline
  | _ => True

instance (o : AuthOptions) (sha256 : String → String) (w : World) :
    (pc : Pc) → Decidable (Timely o sha256 w pc)
  | .lookup .. => inferInstanceAs (Decidable (∀ e ∈ _, _ → _))
  | .answered .. | .waiting .. => inferInstanceAs (Decidable (∀ c ∈ _, ∀ deadline ∈ _, _))
  | .start | .gate .. | .verify .. | .calling .. | .invoked .. | .rejected .. => isTrue trivial

def Prompt (o : AuthOptions) (sha256 : String → String) (s : State) : Action → Prop
  | .request k _ => ∀ q ∈ s.requests[k]?, Timely o sha256 s.world q.pc
  | _ => True

instance (o : AuthOptions) (sha256 : String → String) (s : State) :
    (a : Action) → Decidable (Prompt o sha256 s a)
  | .request .. => inferInstanceAs (Decidable (∀ q ∈ _, _))
  | .arrive .. | .tick .. => isTrue trivial

end MessageLoop.ServerAPI.Auth
