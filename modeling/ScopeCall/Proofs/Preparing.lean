import ScopeCall.Proofs.Chaining
import ScopeCall.Proofs.Entering

/-!
# `ScopeCall.Proofs.Preparing` — a call up to its callee

All ways through the chain of a call site end alike: control is given to a callee, with arguments that have been
matched to its formals. What goes before is the preparation of the call. It finds a node, or makes one; it
matches and evaluates; it makes a copy of the body if the callee wants one. The depth limit of the site is only
read, for later. A call is its preparation, and then the transfer of control.

## Contents
- **Prepared calls.** `Chain.Prepared`.
- **Preparation.** `Chain.prepare`, case by case as a call runs.
- **Calls.** `Chain.execute_eq`, and `Chain.executeSite_eq_prepareSite` where the callee is evaluated.
-/

namespace ScopeCall

namespace Chain

variable {σ α β : Type} {getters : Getters σ} {i : SiteId} {caller : ActivationId} {c : CallableId}

/-! ## Prepared calls -/

/-- A call that control can be given to the callee of. -/
structure Prepared where
  maxDepth : Nat
  callable : CallableId
  target : Option TargetId
  args : List (Option Value)
  demand : CallerDemand

/-- Gives control to the callee. -/
def Prepared.enter (p : Prepared) (caller : ActivationId) : CallM Entry :=
  Store.invoke p.maxDepth caller p.callable p.target p.args p.demand

/-- A preparation, and then the transfer of control. -/
def thenEnter (caller : ActivationId) (act : EvalM σ Prepared) : EvalM σ Entry :=
  act >>= fun p => EvalM.onCall (p.enter caller)

theorem thenEnter_bind (act : EvalM σ β) (f : β → EvalM σ Prepared) :
    thenEnter caller (act >>= f) = act >>= fun b => thenEnter caller (f b) :=
  bind_assoc act f _

/-- What follows a first step is compared step by step. -/
theorem bind_eq_thenEnter (act : EvalM σ β) {f : β → EvalM σ Entry} {g : β → EvalM σ Prepared}
    (h : ∀ b, f b = thenEnter caller (g b)) : act >>= f = thenEnter caller (act >>= g) := by
  rw [thenEnter_bind]
  exact congrArg (act >>= ·) (funext h)

theorem throw_eq_thenEnter (e : EvalError) : (throw e : EvalM σ Entry) = thenEnter caller (throw e) := rfl

theorem onCall_bind (act : CallM β) (f : β → CallM α) :
    (EvalM.onCall (act >>= f) : EvalM σ α) = EvalM.onCall act >>= fun b => EvalM.onCall (f b) := by
  refine funext fun m => ?_
  have hcall : EvalM.onCall (act >>= f) m
      = (((act >>= f).run.run m.store).1, ({ m with store := ((act >>= f).run.run m.store).2 } : Machine σ)) := rfl
  have hbind := EvalM.run_bind (m := m) (EvalM.onCall act : EvalM σ β) fun b => EvalM.onCall (f b)
  rw [EvalM.run_onCall] at hbind
  refine Eq.trans ?_ hbind.symm
  rw [hcall, Store.run_except_bind]
  generalize act.run.run m.store = result
  rcases result with ⟨e | b, s⟩ <;> rfl

/-! ## Preparation -/

/-- Binds the values of one call to a cached callee. -/
def prepareDispatch (i : SiteId) (id : NodeId) (d : Dispatch) (names : SuppliedNames)
    (values : List Value) : CallM Prepared := do
  let s ← get
  let bound ← (Store.onHeap (d.matched.bind (s.callable d.callable).formals names values) : StoreM _)
  let target ← (dispatchTarget i id d : StoreM _)
  return { maxDepth := (s.site i).maxDepth, callable := d.callable, target, args := bound, demand := d.demand }

/-- Prepares a call of a cached callee, without forwards. -/
def prepareFixed (getters : Getters σ) (i : SiteId) (id : NodeId) (d : Dispatch) (caller : ActivationId) :
    EvalM σ Prepared := do
  let args := ((← EvalM.store).site i).args
  let values ← Arguments.evaluate getters caller args []
  EvalM.onCall (prepareDispatch i id d (Arguments.staticNames args) values)

/-- Prepares a call whose arguments are matched for it only. -/
def prepareGeneric (getters : Getters σ) (i : SiteId) (demand : CallerDemand) (caller : ActivationId)
    (c : CallableId) : EvalM σ Prepared := do
  let s ← EvalM.store
  let site := s.site i
  EvalM.ofExcept (Arguments.checkNames site.args)
  let groups ← EvalM.ofExcept (Arguments.readGroups site.args s caller)
  EvalM.hold (groups.map Value.group)
  let entries := Arguments.entriesOf s groups
  let names := Arguments.flattenedNames site.args entries
  let matched ← EvalM.onCall (Store.runMatcher site.matcher c names site.source true)
  let values ← Arguments.evaluate getters caller site.args entries
  EvalM.onCall do
    let callable := (← get).callable c
    let bound ← (Store.onHeap (matched.bind callable.formals names values) : StoreM _)
    return { maxDepth := site.maxDepth, callable := c, target := callable.target?, args := bound, demand }

/-- Prepares a call that ends a chain, or a list of shapes. -/
def prepareLastly (getters : Getters σ) (i : SiteId) (id : NodeId) (final : CallerDemand → Node)
    (caller : ActivationId) (c : CallableId) : EvalM σ Prepared := do
  let demand ← EvalM.onStore (Store.newDemand false)
  EvalM.onStore (modify (setNode · i id (final demand)))
  prepareGeneric getters i demand caller c

/-- Prepares a call that adds an argument shape. -/
def prepareShape (getters : Getters σ) (i : SiteId) (id : NodeId) (depth : Nat) (signature : SuppliedNames)
    (entries : List (List GroupEntry)) (caller : ActivationId) (c : CallableId) : EvalM σ Prepared := do
  let site := (← EvalM.store).site i
  if depth ≥ site.limits.variadicDepth then
    prepareLastly getters i id .variadicGeneric caller c
  else
    let matched ← EvalM.onCall (Store.runMatcher site.matcher c signature site.source false)
    let next ← EvalM.onStore <| do
      if depth + 1 < site.limits.variadicDepth then addNode i (.variadicVacant (depth + 1))
      else addNode i (.variadicGeneric (← Store.newDemand false))
    let d ← EvalM.onStore (newDispatch c matched)
    EvalM.onStore (modify (setNode · i id (.variadicCase signature d next)))
    let values ← Arguments.evaluate getters caller site.args entries
    EvalM.onCall (prepareDispatch i id d signature values)

/-- Prepares a call that forwards leftover arguments. -/
def prepareVariadic (getters : Getters σ) (i : SiteId) (start : NodeId) (caller : ActivationId)
    (c : CallableId) : EvalM σ Prepared := do
  let s ← EvalM.store
  let site := s.site i
  let groups ← EvalM.ofExcept (Arguments.readGroups site.args s caller)
  EvalM.hold (groups.map Value.group)
  let entries := Arguments.entriesOf s groups
  let signature := Arguments.flattenedNames site.args entries
  match ← ofFault (followShapes site.nodes signature (site.nodes.size + 1) start) with
  | (id, .variadicCase _ d _) =>
    let values ← Arguments.evaluate getters caller site.args entries
    EvalM.onCall (prepareDispatch i id d signature values)
  | (id, .variadicVacant depth)   => prepareShape getters i id depth signature entries caller c
  | (_, .variadicGeneric demand)  => prepareGeneric getters i demand caller c
  | (id, _)                       => throw (.internal (.missingCacheNode id.index))

/-- Prepares a call that goes through a handler. -/
def prepareHandler (getters : Getters σ) (i : SiteId) (handlerId : NodeId) (caller : ActivationId)
    (c : CallableId) : Node → EvalM σ Prepared
  | .fixed d => prepareFixed getters i handlerId d caller
  | _        => prepareVariadic getters i handlerId caller c

/-- Adds a link to a handler, and prepares a call that goes through it. -/
def prepareLink (getters : Getters σ) (i : SiteId) (id : NodeId) (depth limit : Nat) (caller : ActivationId)
    (c : CallableId) (handler : Node) : EvalM σ Prepared := do
  let (handlerId, next) ← EvalM.onStore <| do
    let tail ← if depth + 1 < limit then pure (Node.vacant (depth + 1))
      else Node.generic <$> Store.newDemand false
    let handlerId ← addNode i handler
    let next ← addNode i tail
    return (handlerId, next)
  EvalM.onStore (modify (setNode · i id (.link c handlerId next)))
  prepareHandler getters i handlerId caller c handler

/-- Prepares a call of a function that the chain has no link for. -/
def prepareNew (getters : Getters σ) (i : SiteId) (id : NodeId) (depth : Nat) (caller : ActivationId)
    (c : CallableId) : EvalM σ Prepared := do
  let site := (← EvalM.store).site i
  EvalM.ofExcept (Arguments.checkNames site.args)
  if depth ≥ site.limits.functionDepth then
    prepareLastly getters i id .generic caller c
  else
    let handler ←
      if Arguments.forwardsVariadic site.args then pure (Node.variadicVacant 0)
      else
        let names := Arguments.staticNames site.args
        let matched ← EvalM.onCall (Store.runMatcher site.matcher c names site.source false)
        Node.fixed <$> EvalM.onStore (newDispatch c matched)
    prepareLink getters i id depth site.limits.functionDepth caller c handler

/-- Prepares a call through the chain of a call site. -/
def prepare (getters : Getters σ) (i : SiteId) (caller : ActivationId) (c : CallableId) :
    EvalM σ Prepared := do
  let nodes := ((← EvalM.store).site i).nodes
  match ← ofFault (follow nodes c (nodes.size + 1) .root) with
  | (id, .vacant depth)      => prepareNew getters i id depth caller c
  | (id, .fixed d)           => prepareFixed getters i id d caller
  | (_, .generic demand)
  | (_, .variadicGeneric demand) => prepareGeneric getters i demand caller c
  | (id, .variadicVacant _)
  | (id, .variadicCase ..)   => prepareVariadic getters i id caller c
  | (id, .link ..)           => throw (.internal (.missingCacheNode id.index))

/-! ## Calls -/

/-- Evaluating, binding and then the transfer of control. -/
theorem evaluate_runDispatch_eq (id : NodeId) (d : Dispatch) (args : Arguments)
    (entries : List (List GroupEntry)) (names : SuppliedNames) :
    (do let values ← Arguments.evaluate getters caller args entries
        EvalM.onCall (runDispatch i id d caller names values) : EvalM σ Entry)
      = thenEnter caller (do let values ← Arguments.evaluate getters caller args entries
                             EvalM.onCall (prepareDispatch i id d names values)) := by
  apply bind_eq_thenEnter
  intro values
  have hrun : runDispatch i id d caller names values
      = prepareDispatch i id d names values >>= fun p => p.enter caller := by
    simp only [runDispatch, prepareDispatch, Prepared.enter, bind_assoc, pure_bind]
  rw [hrun, onCall_bind]
  rfl

theorem runFixed_eq (id : NodeId) (d : Dispatch) :
    runFixed getters i id d caller = thenEnter caller (prepareFixed getters i id d caller) := by
  apply bind_eq_thenEnter
  intro s
  exact evaluate_runDispatch_eq id d _ _ _

theorem runGeneric_eq (demand : CallerDemand) :
    runGeneric getters i demand caller c = thenEnter caller (prepareGeneric getters i demand caller c) := by
  unfold runGeneric prepareGeneric
  refine bind_eq_thenEnter _ fun s => bind_eq_thenEnter _ fun _ => bind_eq_thenEnter _ fun groups => ?_
  refine bind_eq_thenEnter _ fun _ => bind_eq_thenEnter _ fun matched => bind_eq_thenEnter _ fun values => ?_
  refine Eq.trans (congrArg EvalM.onCall ?_) (onCall_bind _ _)
  simp only [Prepared.enter, bind_assoc, pure_bind]

theorem runLastly_eq (id : NodeId) (final : CallerDemand → Node) :
    runLastly getters i id final caller c = thenEnter caller (prepareLastly getters i id final caller c) := by
  unfold runLastly prepareLastly
  refine bind_eq_thenEnter _ fun demand => bind_eq_thenEnter _ fun _ => ?_
  exact runGeneric_eq demand

theorem growShapes_prepared (id : NodeId) (depth : Nat) (signature : SuppliedNames)
    (entries : List (List GroupEntry)) : growShapes getters i id depth signature entries caller c
      = thenEnter caller (prepareShape getters i id depth signature entries caller c) := by
  unfold growShapes prepareShape
  apply bind_eq_thenEnter
  intro s
  dsimp only
  split
  · exact runLastly_eq id _
  · refine bind_eq_thenEnter _ fun matched => bind_eq_thenEnter _ fun next => ?_
    refine bind_eq_thenEnter _ fun d => bind_eq_thenEnter _ fun _ => ?_
    exact evaluate_runDispatch_eq id d _ entries signature

theorem runVariadic_eq (start : NodeId) :
    runVariadic getters i start caller c = thenEnter caller (prepareVariadic getters i start caller c) := by
  unfold runVariadic prepareVariadic
  refine bind_eq_thenEnter _ fun s => bind_eq_thenEnter _ fun groups => bind_eq_thenEnter _ fun _ => ?_
  apply bind_eq_thenEnter
  rintro ⟨id, n⟩
  cases n with
  | variadicCase names d next => exact evaluate_runDispatch_eq id d _ _ _
  | variadicVacant depth => exact growShapes_prepared id depth _ _
  | variadicGeneric demand => exact runGeneric_eq demand
  | _ => exact throw_eq_thenEnter _

theorem linkTo_eq (id : NodeId) (depth limit : Nat) (handler : Node) :
    linkTo getters i id depth limit caller c handler
      = thenEnter caller (prepareLink getters i id depth limit caller c handler) := by
  unfold linkTo prepareLink
  refine bind_eq_thenEnter _ fun ends => bind_eq_thenEnter _ fun _ => ?_
  cases handler with
  | fixed d => exact runFixed_eq ends.1 d
  | _ => exact runVariadic_eq ends.1

theorem specialize_prepared (id : NodeId) (depth : Nat) : specialize getters i id depth caller c
    = thenEnter caller (prepareNew getters i id depth caller c) := by
  rw [specialize_eq]
  unfold prepareNew
  refine bind_eq_thenEnter _ fun s => bind_eq_thenEnter _ fun _ => ?_
  dsimp only
  split
  · exact runLastly_eq id _
  · split
    · exact bind_eq_thenEnter _ fun handler => linkTo_eq id depth _ handler
    · refine bind_eq_thenEnter _ fun matched => bind_eq_thenEnter _ fun handler => ?_
      exact linkTo_eq id depth _ handler

/-- **A call is its preparation, and then the transfer of control.** -/
theorem execute_eq (getters : Getters σ) (i : SiteId) (caller : ActivationId) (c : CallableId) :
    execute getters i caller c = thenEnter caller (prepare getters i caller c) := by
  unfold execute prepare
  apply bind_eq_thenEnter
  intro s
  apply bind_eq_thenEnter
  rintro ⟨id, n⟩
  cases n with
  | vacant depth => exact specialize_prepared id depth
  | fixed d => exact runFixed_eq id d
  | generic demand => exact runGeneric_eq demand
  | variadicGeneric demand => exact runGeneric_eq demand
  | variadicVacant depth => exact runVariadic_eq id
  | variadicCase names d next => exact runVariadic_eq id
  | link callee handler next => exact throw_eq_thenEnter _

/-- Prepares a call of whatever the callee of a call site evaluates to. -/
def prepareSite (getters : Getters σ) (i : SiteId) (caller : ActivationId) : EvalM σ Prepared :=
  calleeOf getters i caller >>= prepare getters i caller

/-- So is a call of whatever the callee of a call site evaluates to. -/
theorem executeSite_eq_prepareSite (getters : Getters σ) (i : SiteId) (caller : ActivationId) :
    executeSite getters i caller = thenEnter caller (prepareSite getters i caller) := by
  rw [executeSite_eq]
  apply bind_eq_thenEnter
  exact execute_eq getters i caller

end Chain

end ScopeCall
