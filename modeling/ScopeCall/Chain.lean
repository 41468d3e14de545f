import ScopeCall.Argument
import ScopeCall.Invoke

/-!
# `ScopeCall.Chain` — call sites that specialize

A call site caches, per callee it has seen, the matched arguments; the cache is a chain of links that
grows up to the site's limits and then ends in a node that matches every call anew. Where the call
forwards leftover arguments, each link has a list of argument shapes in place of one match.

A call runs in two parts: everything up to the callee's body happens here and yields an `Entry`; the
body is run by the embedding program. Nothing is left to do after the body, so calls that re-enter a
site from a callee's body are just later calls.

## Contents
- **Nodes.** Reading, adding and replacing.
- **Running.** A cached callee, and the generic path.
- **Argument shapes.** `Chain.runVariadic`.
- **Links.** `Chain.execute`.
- **Call sites.** `Chain.executeSite` evaluates the callee as well.
- **Shape.** What can be observed of a chain.
-/

namespace ScopeCall

namespace Chain

variable {σ : Type}

/-! ## Nodes -/

/-- A node that has to exist. -/
def node (nodes : Array Node) (id : NodeId) : Except Fault Node :=
  match nodes[id.index]? with
  | some n => .ok n
  | none   => .error (.missingCacheNode id.index)

/-- Follows the links for a callee to the node that handles its calls. Links lead to later nodes, so
    the number of nodes is fuel enough. -/
def follow (nodes : Array Node) (c : CallableId) : Nat → NodeId → Except Fault (NodeId × Node)
  | 0, id => .error (.missingCacheNode id.index)
  | fuel + 1, id => do
    match ← node nodes id with
    | .link callee handler next => follow nodes c fuel (if callee = c then handler else next)
    | n => return (id, n)

/-- Follows a list of argument shapes to the node for a signature, or to its end. -/
def followShapes (nodes : Array Node) (signature : SuppliedNames) :
    Nat → NodeId → Except Fault (NodeId × Node)
  | 0, id => .error (.missingCacheNode id.index)
  | fuel + 1, id => do
    match ← node nodes id with
    | n@(.variadicCase cached _ next) =>
      if cached = signature then return (id, n) else followShapes nodes signature fuel next
    | n => return (id, n)

/-- Adds a node to the arena of a site. -/
def addNode (i : SiteId) (n : Node) : StoreM NodeId :=
  modifyGet fun s =>
    (⟨(s.site i).nodes.size⟩, s.modifySite i fun site => { site with nodes := site.nodes.push n })

/-- Replaces a node, keeping its place. -/
def setNode (s : Store) (i : SiteId) (id : NodeId) (n : Node) : Store :=
  s.modifySite i fun site => { site with nodes := site.nodes.setIfInBounds id.index n }

def ofFault {α : Type} : Except Fault α → EvalM σ α
  | .ok r    => return r
  | .error f => throw (.internal f)

/-- A fresh dispatch to a callee whose arguments have been matched. -/
def newDispatch (c : CallableId) (matched : MatchedArguments) : StoreM Dispatch := do
  let callable := (← get).callable c
  let demand ← Store.newDemand callable.wantsCaller
  return { callable := c, matched, demand, splitPending := callable.wantsDedicatedCopy }

/-- The dispatch that a node holds. -/
def dispatchOf? : Node → Option Dispatch
  | .fixed d | .variadicCase _ d _ => some d
  | _ => none

def withDispatch (d : Dispatch) : Node → Node
  | .fixed _                       => .fixed d
  | .variadicCase signature _ next => .variadicCase signature d next
  | n => n

/-! ## Running -/

/-- The body that a node runs: the shared one, or a copy for this node, made on its first call, if
    the callee wants one. -/
def dispatchTarget (i : SiteId) (id : NodeId) (d : Dispatch) : StoreM (Option TargetId) := do
  let d ← if d.splitPending then
      let copy ← Store.dedicatedCopy d.callable
      let d := { d with splitPending := false, dedicated := copy }
      modify (·.modifySite i fun site =>
        { site with nodes := site.nodes.modify id.index (withDispatch d) })
      pure d
    else pure d
  return d.dedicated <|> ((← get).callable d.callable).target?

/-- Runs a cached callee with the values of one call. -/
def runDispatch (i : SiteId) (id : NodeId) (d : Dispatch) (caller : ActivationId)
    (names : SuppliedNames) (values : List Value) : CallM Entry := do
  let s ← get
  let bound ← (Store.onHeap (d.matched.bind (s.callable d.callable).formals names values) : StoreM _)
  let target ← (dispatchTarget i id d : StoreM _)
  Store.invoke (s.site i).maxDepth caller d.callable target bound d.demand

/-- Runs a cached callee of a call without forwards. -/
def runFixed (getters : Getters σ) (i : SiteId) (id : NodeId) (d : Dispatch)
    (caller : ActivationId) : EvalM σ Entry := do
  let args := ((← EvalM.store).site i).args
  let values ← Arguments.evaluate getters caller args []
  EvalM.onCall (runDispatch i id d caller (Arguments.staticNames args) values)

/-- Runs a callee whose arguments are matched for this call only. -/
def runGeneric (getters : Getters σ) (i : SiteId) (demand : CallerDemand) (caller : ActivationId)
    (c : CallableId) : EvalM σ Entry := do
  let s ← EvalM.store
  let site := s.site i
  EvalM.ofExcept (Arguments.checkNames site.args)
  let groups ← EvalM.ofExcept (Arguments.readGroups site.args s caller)
  EvalM.hold (groups.map Value.group)
  let entries := Arguments.entriesOf s groups
  let names := Arguments.flattenedNames site.args entries
  let matched ← EvalM.onCall (Store.runMatcher site.matcher c names site.source true)
  let values ← Arguments.evaluate getters caller site.args entries
  EvalM.onCall do
    let callable := (← get).callable c
    let bound ← (Store.onHeap (matched.bind callable.formals names values) : StoreM _)
    Store.invoke site.maxDepth caller c callable.target? bound demand

/-- Ends a chain, or a list of shapes, with a node that matches every call anew, and runs it. -/
def runLastly (getters : Getters σ) (i : SiteId) (id : NodeId) (final : CallerDemand → Node)
    (caller : ActivationId) (c : CallableId) : EvalM σ Entry := do
  let demand ← EvalM.onStore (Store.newDemand false)
  EvalM.onStore (modify (setNode · i id (final demand)))
  runGeneric getters i demand caller c

/-! ## Argument shapes -/

/-- Caches a signature in place of the end of a list of shapes, and runs through it. -/
def growShapes (getters : Getters σ) (i : SiteId) (id : NodeId) (depth : Nat)
    (signature : SuppliedNames) (entries : List (List GroupEntry)) (caller : ActivationId)
    (c : CallableId) : EvalM σ Entry := do
  let site := (← EvalM.store).site i
  if depth ≥ site.limits.variadicDepth then
    runLastly getters i id .variadicGeneric caller c
  else
    let matched ← EvalM.onCall (Store.runMatcher site.matcher c signature site.source false)
    let next ← EvalM.onStore <| do
      if depth + 1 < site.limits.variadicDepth then addNode i (.variadicVacant (depth + 1))
      else addNode i (.variadicGeneric (← Store.newDemand false))
    let d ← EvalM.onStore (newDispatch c matched)
    EvalM.onStore (modify (setNode · i id (.variadicCase signature d next)))
    let values ← Arguments.evaluate getters caller site.args entries
    EvalM.onCall (runDispatch i id d caller signature values)

/-- Runs a call that forwards leftover arguments, through the list of shapes that starts at a
    node. -/
def runVariadic (getters : Getters σ) (i : SiteId) (start : NodeId) (caller : ActivationId)
    (c : CallableId) : EvalM σ Entry := do
  let s ← EvalM.store
  let site := s.site i
  let groups ← EvalM.ofExcept (Arguments.readGroups site.args s caller)
  EvalM.hold (groups.map Value.group)
  let entries := Arguments.entriesOf s groups
  let signature := Arguments.flattenedNames site.args entries
  match ← ofFault (followShapes site.nodes signature (site.nodes.size + 1) start) with
  | (id, .variadicCase _ d _) =>
    let values ← Arguments.evaluate getters caller site.args entries
    EvalM.onCall (runDispatch i id d caller signature values)
  | (id, .variadicVacant depth)   => growShapes getters i id depth signature entries caller c
  | (_, .variadicGeneric demand)  => runGeneric getters i demand caller c
  | (id, _)                       => throw (.internal (.missingCacheNode id.index))

/-! ## Links -/

/-- Adds a link for a callee in place of the end of a chain, and runs through it. A call whose
    arguments do not match adds nothing. -/
def specialize (getters : Getters σ) (i : SiteId) (id : NodeId) (depth : Nat)
    (caller : ActivationId) (c : CallableId) : EvalM σ Entry := do
  let site := (← EvalM.store).site i
  EvalM.ofExcept (Arguments.checkNames site.args)
  if depth ≥ site.limits.functionDepth then
    runLastly getters i id .generic caller c
  else
    let handler ←
      if Arguments.forwardsVariadic site.args then pure (Node.variadicVacant 0)
      else
        let names := Arguments.staticNames site.args
        let matched ← EvalM.onCall (Store.runMatcher site.matcher c names site.source false)
        Node.fixed <$> EvalM.onStore (newDispatch c matched)
    let (handlerId, next) ← EvalM.onStore <| do
      let tail ← if depth + 1 < site.limits.functionDepth then pure (Node.vacant (depth + 1))
        else Node.generic <$> Store.newDemand false
      let handlerId ← addNode i handler
      let next ← addNode i tail
      return (handlerId, next)
    EvalM.onStore (modify (setNode · i id (.link c handlerId next)))
    match handler with
    | .fixed d => runFixed getters i handlerId d caller
    | _        => runVariadic getters i handlerId caller c

/-- Calls a function through the chain of a call site. -/
def execute (getters : Getters σ) (i : SiteId) (caller : ActivationId) (c : CallableId) :
    EvalM σ Entry := do
  let nodes := ((← EvalM.store).site i).nodes
  match ← ofFault (follow nodes c (nodes.size + 1) .root) with
  | (id, .vacant depth)      => specialize getters i id depth caller c
  | (id, .fixed d)           => runFixed getters i id d caller
  | (_, .generic demand)
  | (_, .variadicGeneric demand) => runGeneric getters i demand caller c
  | (id, .variadicVacant _)
  | (id, .variadicCase ..)   => runVariadic getters i id caller c
  | (id, .link ..)           => throw (.internal (.missingCacheNode id.index))

/-! ## Call sites -/

/-- Evaluates the callee of a call site, and calls it from `caller`. -/
def executeSite (getters : Getters σ) (i : SiteId) (caller : ActivationId) : EvalM σ Entry := do
  let callee ← match ((← EvalM.store).site i).callee with
    | .read cache => EvalM.readOrError getters cache caller
    | .value v    => pure v
  match ← EvalM.force getters callee with
  | .function c =>
    EvalM.hold [.function c]
    execute getters i caller c
  | v => throw (.notCallable v.typeName)

/-! ## Shape -/

/-- What can be observed of one cached callee. -/
structure LinkShape where
  callee : String
  /-- The number of cached argument shapes; none for a call without forwards. -/
  shapes : Nat := 0
  /-- Whether the list of shapes is full. -/
  generic : Bool := false
  /-- Whether some call through this link hands over its caller. -/
  materialized : Bool := false
deriving DecidableEq, Repr, Inhabited

/-- What can be observed of a chain: its links in order, and whether it is full. -/
structure Shape where
  links : List LinkShape
  generic : Bool
deriving DecidableEq, Repr, Inhabited

/-- Adds to the shape of a link what its handler shows. -/
def handlerShape (s : Store) (nodes : Array Node) : Nat → NodeId → LinkShape → LinkShape
  | 0, _, link => link
  | fuel + 1, id, link =>
    match nodes[id.index]? with
    | some (.fixed d) => { link with materialized := s.demandNeeded d.demand }
    | some (.variadicCase _ d next) =>
      handlerShape s nodes fuel next
        { link with
          shapes := link.shapes + 1
          materialized := link.materialized || s.demandNeeded d.demand }
    | some (.variadicGeneric _) => { link with generic := true }
    | _ => link

/-- The shape of the chain that starts at a node. -/
def shapeFrom (s : Store) (nodes : Array Node) : Nat → NodeId → Shape
  | 0, _ => ⟨[], false⟩
  | fuel + 1, id =>
    match nodes[id.index]? with
    | some (.link c handler next) =>
      let link := handlerShape s nodes (nodes.size + 1) handler { callee := (s.callable c).label }
      let rest := shapeFrom s nodes fuel next
      { rest with links := link :: rest.links }
    | some (.generic _) => ⟨[], true⟩
    | _ => ⟨[], false⟩

/-- The shape of the chain of a call site. -/
def shape (s : Store) (i : SiteId) : Shape :=
  let nodes := (s.site i).nodes
  shapeFrom s nodes (nodes.size + 1) .root

end Chain

end ScopeCall
