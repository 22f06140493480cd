import Mathlib.Data.List.AList
import MessageLoop.Lib.LinkedTrie
import MessageLoop.Lib.Transition
import MessageLoop.Topics

/-!
The trie matcher (`pkg/topics/cstrie.go`) under calls that do not overlap.

I-nodes are positions in a list of main nodes, the root is the first. Without other calls a
compare-and-swap succeeds, so an attempt of a call is a function of the nodes. An attempt that
meets a T-node cleans the I-node above it and is made again; nothing bounds how often.
-/

namespace MessageLoop.Trie

open Topics

structure Branch (σ : Type) where
  iNode : Option Nat
  subs : List σ
  deriving DecidableEq, Repr

abbrev CNode (σ : Type) := AList fun _ : Segment => Branch σ

inductive MainNode (σ : Type) where
  | cNode (branches : CNode σ)
  | tNode

abbrev Nodes (σ : Type) := List (MainNode σ)

variable {σ : Type}

def root : Nat := 0

def Nodes.main (nodes : Nodes σ) (i : Nat) : MainNode σ :=
  nodes.getD i .tNode

def newCSTrieMatcher : Nodes σ :=
  [.cNode ∅]

section CNode

def newCNode (nodes : Nodes σ) : List Segment → σ → Nodes σ × CNode σ
  | [], _ => (nodes, ∅)
  | [word], sub => (nodes, AList.singleton word ⟨none, [sub]⟩)
  | word :: words, sub =>
    let (nodes, cn) := newCNode nodes words sub
    (nodes ++ [.cNode cn], AList.singleton word ⟨some nodes.length, []⟩)

def CNode.inserted (nodes : Nodes σ) (cn : CNode σ) (word : Segment) (words : List Segment)
    (sub : σ) : Nodes σ × CNode σ :=
  match words with
  | [] => (nodes, cn.insert word ⟨none, [sub]⟩)
  | _ :: _ =>
    let (nodes, below) := newCNode nodes words sub
    (nodes ++ [.cNode below], cn.insert word ⟨some nodes.length, []⟩)

def CNode.updated (cn : CNode σ) (word : Segment) (sub : σ) : CNode σ :=
  match cn.lookup word with
  | some br => cn.insert word ⟨br.iNode, sub :: br.subs⟩
  | none => cn.insert word ⟨none, [sub]⟩

def Branch.updated (br : Branch σ) (iNode : Option Nat) : Branch σ :=
  { br with iNode := iNode }

def CNode.updatedBranch (cn : CNode σ) (word : Segment) (iNode : Option Nat) (br : Branch σ) :
    CNode σ :=
  cn.insert word (br.updated iNode)

variable [DecidableEq σ]

def Branch.removed (br : Branch σ) (sub : σ) : Branch σ :=
  { br with subs := br.subs.filter (· ≠ sub) }

def CNode.removed (cn : CNode σ) (word : Segment) (sub : σ) : CNode σ :=
  match cn.lookup word with
  | none => cn
  | some br =>
    let br := br.removed sub
    if br.subs = [] ∧ br.iNode = none then cn.erase word else cn.insert word br

end CNode

section Contraction

def Nodes.tombed (nodes : Nodes σ) (i : Nat) : Bool :=
  match nodes.main i with
  | .cNode _ => false
  | .tNode => true

def prunable (nodes : Nodes σ) (br : Branch σ) : Bool :=
  br.subs.isEmpty && br.iNode.all nodes.tombed

def toCompressed (nodes : Nodes σ) (cn : CNode σ) : CNode σ :=
  ⟨cn.entries.filter fun e => !prunable nodes e.2, cn.nodupKeys.sublist List.filter_sublist⟩

def toContracted (cn : CNode σ) (i : Nat) : MainNode σ :=
  if i ≠ root ∧ cn.entries = [] then .tNode else .cNode cn

def clean (nodes : Nodes σ) (i : Option Nat) : Nodes σ :=
  match i with
  | none => nodes
  | some i =>
    match nodes.main i with
    | .cNode cn => nodes.set i (.cNode (toCompressed nodes cn))
    | .tNode => nodes

/-- The parent's C-node is `cn`. If nothing is left of it, its branch in the node above is cleared
instead; that branch is searched for by the I-node it points to. -/
def contract (nodes : Nodes σ) (parentsParent : Option Nat) (parent : Nat) (cn : CNode σ) :
    Nodes σ :=
  let ncn := toCompressed nodes cn
  match parentsParent with
  | none => nodes.set parent (toContracted ncn parent)
  | some pp =>
    if ncn.entries = [] then
      match nodes.main pp with
      | .tNode => nodes
      | .cNode ppcn =>
        match ppcn.entries.find? (fun e => e.2.iNode = some parent) with
        | none => nodes
        | some ⟨key, br⟩ =>
          let updated := ppcn.updatedBranch key none br
          let updated := if br.subs = [] then updated.erase key else updated
          nodes.set pp (.cNode (toCompressed nodes updated))
    else nodes.set parent (toContracted ncn parent)

def cleanParent (nodes : Nodes σ) (i parent : Nat) (parentsParent : Option Nat) (word : Segment) :
    Nodes σ :=
  match nodes.main parent with
  | .tNode => nodes
  | .cNode cn =>
    match cn.lookup word with
    | none => nodes
    | some br =>
      if br.iNode ≠ some i then nodes
      else if nodes.tombed i then contract nodes parentsParent parent cn
      else nodes

end Contraction

section Attempts
variable [DecidableEq σ]

def iinsert (nodes : Nodes σ) (sub : σ) : Nat → Option Nat → List Segment → Nodes σ × Bool
  | _, _, [] => (nodes, true)
  | i, parent, word :: words =>
    match nodes.main i with
    | .tNode => (clean nodes parent, false)
    | .cNode cn =>
      match cn.lookup word with
      | none =>
        let (nodes, ncn) := cn.inserted nodes word words sub
        (nodes.set i (.cNode ncn), true)
      | some br =>
        match words with
        | _ :: _ =>
          match br.iNode with
          | some j => iinsert nodes sub j (some i) words
          | none =>
            let (nodes, below) := newCNode nodes words sub
            let nin := nodes.length
            ((nodes ++ [MainNode.cNode below]).set i (.cNode (cn.updatedBranch word (some nin) br)),
              true)
        | [] =>
          if sub ∈ br.subs then (nodes, true)
          else (nodes.set i (.cNode (cn.updated word sub)), true)

/-- One attempt to remove. `above` is the word under which the parent has `i`. -/
def iremove (nodes : Nodes σ) (sub : σ) :
    Nat → Option (Nat × Segment) → Option Nat → List Segment → Nodes σ × Bool
  | _, _, _, [] => (nodes, true)
  | i, above, parentsParent, word :: words =>
    match nodes.main i with
    | .tNode => (clean nodes (above.map Prod.fst), false)
    | .cNode cn =>
      match cn.lookup word with
      | none => (nodes, true)
      | some br =>
        match words with
        | _ :: _ =>
          match br.iNode with
          | some j => iremove nodes sub j (some (i, word)) (above.map Prod.fst) words
          | none => (nodes, true)
        | [] =>
          if sub ∉ br.subs then (nodes, true)
          else
            let nodes : Nodes σ := nodes.set i (toContracted (cn.removed word sub) i)
            match above with
            | none => (nodes, true)
            | some (parent, prev) =>
              if nodes.tombed i then (cleanParent nodes i parent parentsParent prev, true)
              else (nodes, true)

/-- The subscribers of the branch for the last word: those of `**` one level below match too. -/
def lastSubscribers (nodes : Nodes σ) (br : Branch σ) : List σ :=
  br.subs ++
    match br.iNode with
    | none => []
    | some j =>
      match nodes.main j with
      | .tNode => []
      | .cNode cn => ((cn.lookup multiWildcard).map Branch.subs).getD []

/-- The subscribers along a branch. `ilookup` reads an I-node with the words that remain. -/
def bLookup (nodes : Nodes σ) (ilookup : Nat → Except (Nodes σ) (List σ)) (br : Option (Branch σ))
    (words : List Segment) : Except (Nodes σ) (List σ) :=
  match br with
  | none => .ok []
  | some br =>
    match words with
    | [] => .ok (lastSubscribers nodes br)
    | _ :: _ =>
      match br.iNode with
      | none => .ok []
      | some j => ilookup j

/-- One attempt to look up; the error is the trie for the next one. -/
def ilookup (nodes : Nodes σ) : Nat → Option Nat → List Segment → Except (Nodes σ) (List σ)
  | _, _, [] => .ok []
  | i, parent, word :: words =>
    match nodes.main i with
    | .tNode => .error (clean nodes parent)
    | .cNode cn =>
      if word = [] then .ok []
      else do
        let exact ← bLookup nodes (fun j => ilookup nodes j (some i) words) (cn.lookup word) words
        let single ←
          bLookup nodes (fun j => ilookup nodes j (some i) words) (cn.lookup wildcard) words
        let multi := ((cn.lookup multiWildcard).map Branch.subs).getD []
        pure (exact ++ single ++ multi).dedup

end Attempts

section Calls

inductive MatcherError where
  | badSubscriber
  | badTopic
  deriving DecidableEq, Repr

structure Subscription (σ : Type) where
  topic : String
  subscriber : σ
  deriving DecidableEq, Repr

def retry (attempt : Nodes σ → Nodes σ × Bool) : Nat → Nodes σ → Option (Nodes σ)
  | 0, _ => none
  | n + 1, nodes =>
    match attempt nodes with
    | (nodes, true) => some nodes
    | (nodes, false) => retry attempt n nodes

variable [DecidableEq σ] (comparable : σ → Bool)

def subscribe (attempts : Nat) (nodes : Nodes σ) (topic : String) (sub : σ) :
    Option (Nodes σ × Except MatcherError (Subscription σ)) :=
  if !comparable sub then some (nodes, .error .badSubscriber)
  else if !validTopic topic then some (nodes, .error .badTopic)
  else (retry (fun nodes => iinsert nodes sub root none (splitSegments topic)) attempts nodes).map
    fun nodes => (nodes, .ok ⟨topic, sub⟩)

def unsubscribe (attempts : Nat) (nodes : Nodes σ) (sub : Option (Subscription σ)) :
    Option (Nodes σ) :=
  match sub with
  | none => some nodes
  | some sub =>
    retry (fun nodes => iremove nodes sub.subscriber root none none (splitSegments sub.topic))
      attempts nodes

def lookupAttempts (words : List Segment) : Nat → Nodes σ → Option (Nodes σ × List σ)
  | 0, _ => none
  | n + 1, nodes =>
    match ilookup nodes root none words with
    | .ok subs => some (nodes, subs)
    | .error nodes => lookupAttempts words n nodes

def lookup (attempts : Nat) (nodes : Nodes σ) (topic : String) : Option (Nodes σ × List σ) :=
  let words := splitSegments topic
  if [] ∈ words then some (nodes, []) else lookupAttempts words attempts nodes

inductive Action (σ : Type) where
  | subscribe (topic : String) (sub : σ) (attempts : Nat)
  | unsubscribe (sub : Option (Subscription σ)) (attempts : Nat)
  | lookup (topic : String) (attempts : Nat)
  deriving DecidableEq, Repr

def step (nodes : Nodes σ) : Action σ → Option (Nodes σ)
  | .subscribe topic sub attempts => (subscribe comparable attempts nodes topic sub).map Prod.fst
  | .unsubscribe sub attempts => unsubscribe attempts nodes sub
  | .lookup topic attempts => (lookup attempts nodes topic).map Prod.fst

abbrev run : Nodes σ → List (Action σ) → Option (Nodes σ) :=
  Transition.run (step comparable)

end Calls

end MessageLoop.Trie
