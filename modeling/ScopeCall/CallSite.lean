import ScopeCall.Callable
import ScopeCall.Layout

/-!
# `ScopeCall.CallSite` — call expressions and their caches

A call site is a callee expression, a list of argument specifications, and a cache: a chain of nodes
that grows as new callees and new argument shapes are seen.

## Contents
- **Arguments.** `ArgSpec`: a constant, a read of a name, or the caller's leftover arguments.
- **Matching.** Where each formal's value comes from, and the policies that decide it.
- **Nodes.** The chain as an arena: node 0 is the root, and a node is replaced in place.
- **Sites.** `CallSite` with its limits.
-/

namespace ScopeCall

/-- A read site for one name, with the last lookup result and the layout it was computed for. -/
structure LookupCache where
  name : Name
  cached : Option (LayoutId × LookupResult) := none
deriving DecidableEq, Repr, Inhabited

/-! ## Arguments -/

inductive ArgExpr where
  | const (v : Value)
  | read (cache : CacheId)
  /-- The leftover arguments bound in the caller's scope, spliced in. -/
  | forward
deriving DecidableEq, Repr, Inhabited

structure ArgSpec where
  name : Option Name := none
  expr : ArgExpr
deriving DecidableEq, Repr, Inhabited

def ArgSpec.isForward (spec : ArgSpec) : Bool :=
  match spec.expr with
  | .forward => true
  | _        => false

/-- The names under which the arguments of one call are supplied, in order. -/
abbrev SuppliedNames := List (Option Name)

/-! ## Matching -/

/-- Where a formal's value comes from. -/
inductive FormalSource where
  /-- The supplied argument at this position. -/
  | supplied (index : Nat)
  /-- The supplied arguments at these positions, as a group. -/
  | collected (indices : List Nat)
  | defaulted
  /-- Nowhere; reading the formal is an error. -/
  | missing
deriving DecidableEq, Repr, Inhabited

/-- The outcome of matching: a source per formal. -/
structure MatchedArguments where
  sources : List FormalSource
  /-- Whether the arguments were allowed to be evaluated in another order. -/
  allowsReorder : Bool
deriving DecidableEq, Repr, Inhabited

/-- Who decides how the arguments of a call site are matched. -/
inductive Matcher where
  /-- The standard rules. -/
  | standard
  /-- The standard rules, with every match entered into the match log. -/
  | recording
  /-- One answer for every call. -/
  | fixed (answer : MatchedArguments)
  /-- Every call is refused with one message. -/
  | refusing (message : String)
deriving DecidableEq, Repr, Inhabited

/-- An entry of the match log, with names as they were spelled when the match was made. -/
structure MatchRecord where
  callee : String
  supplied : List (Option String)
  source : String
  allowReorder : Bool
deriving DecidableEq, Repr, Inhabited

/-! ## Nodes -/

structure NodeId where
  index : Nat
deriving DecidableEq, Repr, Inhabited

/-- A cached callee with its matched arguments. -/
structure Dispatch where
  callable : CallableId
  matched : MatchedArguments
  demand : CallerDemand
  /-- Whether a copy of the body is still to be made for this node. -/
  splitPending : Bool
  /-- The copy of the body made for this node. -/
  dedicated : Option TargetId := none
deriving DecidableEq, Repr, Inhabited

inductive Node where
  /-- The end of a chain with `depth` links, which can still grow. -/
  | vacant (depth : Nat)
  /-- Calls of `callee` go to the handler, all others to the next node. -/
  | link (callee : CallableId) (handler next : NodeId)
  /-- A callee whose arguments were matched when the node was made. -/
  | fixed (dispatch : Dispatch)
  /-- The end of a chain that is full: every call is matched anew. -/
  | generic (demand : CallerDemand)
  /-- The end of a list of `depth` argument shapes, which can still grow. -/
  | variadicVacant (depth : Nat)
  /-- Calls whose argument names are `signature` run the dispatch, all others go to the next node. -/
  | variadicCase (signature : SuppliedNames) (dispatch : Dispatch) (next : NodeId)
  /-- The end of a full list of argument shapes. -/
  | variadicGeneric (demand : CallerDemand)
deriving DecidableEq, Repr, Inhabited

/-- The callables that a node keeps alive. -/
def Node.callables : Node → List CallableId
  | .link callee _ _       => [callee]
  | .fixed d               => [d.callable]
  | .variadicCase _ d _    => [d.callable]
  | _                      => []

/-! ## Sites -/

/-- How far a call site specializes: the number of links of its chain, and the number of argument
    shapes per link. -/
structure CacheLimits where
  functionDepth : Nat := 4
  variadicDepth : Nat := 4
deriving DecidableEq, Repr, Inhabited

inductive CalleeExpr where
  | read (cache : CacheId)
  | value (v : Value)
deriving DecidableEq, Repr, Inhabited

/-- The call depth that a site allows unless it says otherwise. -/
def defaultMaxDepth : Nat := 10000

/-- What a call expression is called in diagnostics unless it says otherwise. -/
def defaultSource : String := "<call>"

structure CallSite where
  callee : CalleeExpr
  args : List ArgSpec
  source : String := defaultSource
  limits : CacheLimits := {}
  matcher : Matcher := .standard
  maxDepth : Nat := defaultMaxDepth
  nodes : Array Node := #[.vacant 0]
deriving DecidableEq, Repr, Inhabited

/-- The node where every call starts. -/
def NodeId.root : NodeId := ⟨0⟩

end ScopeCall
