import MessageLoop.Topics.TrieAttempts

/-!
The trie matcher under calls that overlap: each load of a main node and each compare-and-swap is a
step, taken by any of the calls.

A main node is written once, so a compare-and-swap of the pointer to it succeeds exactly if nothing
was swapped in since the pointer was loaded. The memory counts the swaps of each I-node. I-nodes
that a call has made are added when its swap succeeds; nobody else can see them before.
-/

namespace MessageLoop.Trie.Concurrent

open Topics

structure Memory (σ : Type) where
  nodes : Nodes σ
  swaps : Nat → Nat

structure Site where
  i : Nat
  parent : Nat
  parentsParent : Option Nat
  word : Segment
  deriving DecidableEq, Repr

/-- What the result of a `toCompressed` is for. `seen` is the swap count that was loaded together
with the C-node; for `contract` this is the parent's in `cleanParent`, and `clear` has the one of the
parent's parent as well. -/
inductive Purpose where
  | clean (i seen : Nat)
  | contract (site : Site) (seen : Nat)
  | clear (site : Site) (seen : Nat) (above seenAbove : Nat)
  deriving DecidableEq, Repr

/-- A load that a lookup has still to make: `ilookup` of an I-node, or the search for `**` below the
branch of the last word. -/
inductive Task where
  | ilookup (i : Nat) (parent : Option Nat) (words : List Segment)
  | below (i : Nat)
  deriving DecidableEq, Repr

inductive Pc (σ : Type) where
  | iinsert (sub : σ) (i : Nat) (parent : Option Nat) (words : List Segment)
  | insertSwap (sub : σ) (i seen : Nat) (cn : CNode σ) (word : Segment) (words : List Segment)
  | iremove (sub : σ) (i : Nat) (above : Option (Nat × Segment)) (parentsParent : Option Nat)
      (words : List Segment)
  | removeSwap (sub : σ) (i seen : Nat) (cn : CNode σ) (above : Option (Nat × Segment))
      (parentsParent : Option Nat) (word : Segment)
  | removed (site : Site)
  | cleanParent (site : Site)
  | loadParent (site : Site) (tombed : Bool)
  | contractSwap (site : Site) (seen loaded : Nat) (ncn : CNode σ)
  | clean (i : Option Nat)
  | toCompressed (purpose : Purpose) (todo left : CNode σ)
  | ilookup (tasks : List Task) (found : List σ)
  | returned (subs : List σ)
  | panicked
  deriving DecidableEq

/-- The pattern of a subscription, by its segments, and the subscriber. -/
abbrev Pair (σ : Type) := List Segment × σ

/-- A call; a lookup has to find the pairs it is owed if they match. -/
inductive Op (σ : Type) where
  | subscribe (pair : Pair σ)
  | unsubscribe (pair : Pair σ)
  | lookup (topic : String) (owed : List (Pair σ))
  deriving DecidableEq

structure Call (σ : Type) where
  op : Op σ
  pc : Pc σ
  deriving DecidableEq

variable {σ : Type}

def Op.start : Op σ → Pc σ
  | .subscribe (words, sub) => .iinsert sub root none words
  | .unsubscribe (words, sub) => .iremove sub root none none words
  | .lookup topic _ => .ilookup [.ilookup root none (splitSegments topic)] []

def Pc.finished : Pc σ → Bool
  | .returned _ => true
  | .panicked => true
  | _ => false

section Steps

def Memory.swap (mem : Memory σ) (i seen : Nat) (nodes : Nodes σ) : Memory σ × Bool :=
  if mem.swaps i = seen then (⟨nodes, Function.update mem.swaps i (seen + 1)⟩, true)
  else (mem, false)

def insertion (nodes : Nodes σ) (sub : σ) (i : Nat) (cn : CNode σ) (word : Segment)
    (words : List Segment) : Nodes σ :=
  match cn.lookup word with
  | none =>
    let (nodes, ncn) := cn.inserted nodes word words sub
    nodes.set i (.cNode ncn)
  | some br =>
    match words with
    | [] => nodes.set i (.cNode (cn.updated word sub))
    | _ :: _ =>
      let (nodes, below) := newCNode nodes words sub
      let nin := nodes.length
      (nodes ++ [MainNode.cNode below]).set i (.cNode (cn.updatedBranch word (some nin) br))

/-- The loads and the subscribers that a branch gives, with the words after the branch's own. -/
def bLookup (i : Nat) (words : List Segment) : Option (Branch σ) → List Task × List σ
  | none => ([], [])
  | some br =>
    match words with
    | [] => (br.iNode.toList.map .below, br.subs)
    | _ :: _ => (br.iNode.toList.map (.ilookup · (some i) words), [])

/-- `range` over the branches in any order: the next one is that of `key`. -/
def compressNext (nodes : Nodes σ) (purpose : Purpose) (todo left : CNode σ) (key : Segment) :
    Option (Pc σ) :=
  (todo.lookup key).map fun br =>
    .toCompressed purpose (todo.erase key) (if prunable nodes br then left else left.insert key br)

def compressed (mem : Memory σ) (restart : Pc σ) (left : CNode σ) : Purpose → Memory σ × Pc σ
  | .clean i seen => ((mem.swap i seen (mem.nodes.set i (.cNode left))).1, restart)
  | .contract site seen =>
    match site.parentsParent with
    | none => (mem, .contractSwap site seen (mem.swaps site.parent) left)
    | some above =>
      if left.entries = [] then
        match mem.nodes.main above with
        -- The branches are read without asking whether there is a C-node.
        | .tNode => (mem, .panicked)
        | .cNode cn =>
          match cn.entries.find? (fun e => e.2.iNode = some site.parent) with
          | none => (mem, .returned [])
          | some ⟨key, br⟩ =>
            let updated := cn.updatedBranch key none br
            let updated := if br.subs = [] then updated.erase key else updated
            (mem, .toCompressed (.clear site seen above (mem.swaps above)) updated ∅)
      else (mem, .contractSwap site seen (mem.swaps site.parent) left)
  | .clear site _ above seenAbove =>
    match mem.swap above seenAbove (mem.nodes.set above (.cNode left)) with
    | (mem, true) => (mem, .returned [])
    | (mem, false) => (mem, .cleanParent site)

variable [DecidableEq σ]

/-- One step of a call; `restart` is the beginning of its next attempt. -/
def advance (mem : Memory σ) (restart : Pc σ) (key : Segment) : Pc σ → Option (Memory σ × Pc σ)
  | .iinsert _ _ _ [] => none
  | .iinsert sub i parent (word :: words) =>
    match mem.nodes.main i with
    | .tNode => some (mem, .clean parent)
    | .cNode cn =>
      match cn.lookup word with
      | none => some (mem, .insertSwap sub i (mem.swaps i) cn word words)
      | some br =>
        match words with
        | _ :: _ =>
          match br.iNode with
          | some j => some (mem, .iinsert sub j (some i) words)
          | none => some (mem, .insertSwap sub i (mem.swaps i) cn word words)
        | [] =>
          if sub ∈ br.subs then some (mem, .returned [])
          else some (mem, .insertSwap sub i (mem.swaps i) cn word words)
  | .insertSwap sub i seen cn word words =>
    match mem.swap i seen (insertion mem.nodes sub i cn word words) with
    | (mem, true) => some (mem, .returned [])
    | (mem, false) => some (mem, restart)
  | .iremove _ _ _ _ [] => none
  | .iremove sub i above parentsParent (word :: words) =>
    match mem.nodes.main i with
    | .tNode => some (mem, .clean (above.map Prod.fst))
    | .cNode cn =>
      match cn.lookup word with
      | none => some (mem, .returned [])
      | some br =>
        match words with
        | _ :: _ =>
          match br.iNode with
          | some j => some (mem, .iremove sub j (some (i, word)) (above.map Prod.fst) words)
          | none => some (mem, .returned [])
        | [] =>
          if sub ∉ br.subs then some (mem, .returned [])
          else some (mem, .removeSwap sub i (mem.swaps i) cn above parentsParent word)
  | .removeSwap sub i seen cn above parentsParent word =>
    match mem.swap i seen (mem.nodes.set i (toContracted (cn.removed word sub) i)) with
    | (mem, true) =>
      match above with
      | none => some (mem, .returned [])
      | some (parent, prev) => some (mem, .removed ⟨i, parent, parentsParent, prev⟩)
    | (mem, false) => some (mem, restart)
  | .removed site =>
    if mem.nodes.tombed site.i then some (mem, .cleanParent site) else some (mem, .returned [])
  | .cleanParent site => some (mem, .loadParent site (mem.nodes.tombed site.i))
  | .loadParent site tombed =>
    match mem.nodes.main site.parent with
    | .tNode => some (mem, .returned [])
    | .cNode cn =>
      match cn.lookup site.word with
      | none => some (mem, .returned [])
      | some br =>
        if br.iNode ≠ some site.i then some (mem, .returned [])
        else if tombed then
          some (mem, .toCompressed (.contract site (mem.swaps site.parent)) cn ∅)
        else some (mem, .returned [])
  | .contractSwap site _ loaded ncn =>
    -- `loaded` is from a second load of the parent; `ncn` was made from the first one.
    match mem.swap site.parent loaded
      (mem.nodes.set site.parent (toContracted ncn site.parent)) with
    | (mem, true) => some (mem, .returned [])
    | (mem, false) => some (mem, .cleanParent site)
  | .clean none => some (mem, .panicked)
  | .clean (some i) =>
    match mem.nodes.main i with
    | .tNode => some (mem, restart)
    | .cNode cn => some (mem, .toCompressed (.clean i (mem.swaps i)) cn ∅)
  | .toCompressed purpose todo left =>
    if todo.entries = [] then some (compressed mem restart left purpose)
    else (compressNext mem.nodes purpose todo left key).map (mem, ·)
  | .ilookup [] found => some (mem, .returned found.dedup)
  | .ilookup (.below i :: tasks) found =>
    match mem.nodes.main i with
    | .tNode => some (mem, .ilookup tasks found)
    | .cNode cn => some (mem, .ilookup tasks (found ++ subsOf (cn.lookup multiWildcard)))
  | .ilookup (.ilookup _ _ [] :: _) _ => none
  | .ilookup (.ilookup i parent (word :: words) :: tasks) found =>
    match mem.nodes.main i with
    | .tNode => some (mem, .clean parent)
    | .cNode cn =>
      let exact := bLookup i words (cn.lookup word)
      let single := bLookup i words (cn.lookup wildcard)
      some (mem, .ilookup (exact.1 ++ single.1 ++ tasks)
        (found ++ exact.2 ++ single.2 ++ subsOf (cn.lookup multiWildcard)))
  | .returned _ => none
  | .panicked => none

end Steps

section Machine

/-- `kept` are the pairs whose `Subscribe` has returned while no `Unsubscribe` of the pair was under
way, and for which none has started since. -/
structure State (σ : Type) where
  mem : Memory σ
  calls : List (Call σ)
  kept : List (Pair σ)

def start : State σ where
  mem := ⟨newCSTrieMatcher, fun _ => 0⟩
  calls := []
  kept := []

inductive Action (σ : Type) where
  | subscribe (topic : String) (sub : σ)
  | unsubscribe (sub : Subscription σ)
  | lookup (topic : String)
  | advance (k : Nat) (key : Segment)

variable [DecidableEq σ]

def Call.unsubscribes (pair : Pair σ) (c : Call σ) : Bool :=
  match c.op with
  | .unsubscribe other => !c.pc.finished && other = pair
  | _ => false

/-- A lookup under way need not find a pair whose `Unsubscribe` starts. -/
def Call.release (pair : Pair σ) (c : Call σ) : Call σ :=
  match c.op with
  | .lookup topic owed =>
    if c.pc.finished then c else { c with op := .lookup topic (owed.filter (· ≠ pair)) }
  | _ => c

def State.keep (s : State σ) (op : Op σ) (pc : Pc σ) : List (Pair σ) :=
  match op, pc with
  | .subscribe pair, .returned _ =>
    if s.calls.any (Call.unsubscribes pair) then s.kept else pair :: s.kept
  | _, _ => s.kept

def State.call (s : State σ) (op : Op σ) : State σ :=
  { s with calls := s.calls ++ [⟨op, op.start⟩] }

variable (comparable : σ → Bool)

/-- A call that starts, or the next step of one that has not returned. A `Subscribe` that is refused
and the lookup of a topic with an empty segment return at once. -/
def step (s : State σ) : Action σ → Option (State σ)
  | .subscribe topic sub =>
    if comparable sub && validTopic topic then some (s.call (.subscribe (splitSegments topic, sub)))
    else some s
  | .unsubscribe sub =>
    let pair := (splitSegments sub.topic, sub.subscriber)
    let s := { s with calls := s.calls.map (Call.release pair), kept := s.kept.filter (· ≠ pair) }
    some (s.call (.unsubscribe pair))
  | .lookup topic =>
    if (splitSegments topic).any (· = []) then some s else some (s.call (.lookup topic s.kept))
  | .advance k key => do
    let c ← s.calls[k]?
    let (mem, pc) ← advance s.mem c.op.start key c.pc
    some ⟨mem, s.calls.set k { c with pc := pc }, s.keep c.op pc⟩

abbrev run : State σ → List (Action σ) → Option (State σ) :=
  Transition.run (step comparable)

end Machine

end MessageLoop.Trie.Concurrent
