import ScopeCall.Script.Expression

/-!
# `ScopeCall.Script.Operation.Basic` — what operations of scripts are made of

## Contents
- **The state of a step.** `OpM`, and how operations of the library run in it.
- **Operands.** Expressions, names, and registers by the kind of object that they have to hold.
- **Outcomes.**
-/

namespace ScopeCall.Script

/-! ## The state of a step -/

/-- One step of a script, run at a place. -/
abbrev OpM := ReaderT Place (ExceptT Failure (StateM (Machine Session)))

namespace OpM

variable {α : Type}

def store : OpM Store := return (← get).store

def session : OpM Session := return (← get).host

def onStore (act : StoreM α) : OpM α := modifyGet fun m =>
  let (r, store) := act.run m.store
  (r, { m with store })

def onSession (act : Session → α × Session) : OpM α := modifyGet fun m =>
  let (r, host) := act m.host
  (r, { m with host })

/-- Changes the store. -/
def change (f : Store → Store) : OpM Unit := modify fun m => { m with store := f m.store }

def onHeap (act : StateM Heap α) : OpM α := onStore (Store.onHeap act)

def onFault (act : FaultM α) : OpM α := do
  match ← onStore act.run with
  | .ok r        => return r
  | .error fault => throw (.fault fault)

def ofExcept : Except EvalError α → OpM α
  | .ok r    => return r
  | .error e => throw (.error e)

def onCall (act : CallM α) : OpM α := do ofExcept (← onStore act.run)

/-- Runs an evaluation; getters see the names known now. -/
def onEval (act : Getters Session → EvalM Session α) : OpM α := do
  let getters := runGetter (← store).interner
  ofExcept (← modifyGet fun m => (act getters).run.run m)

/-! ## Operands -/

/-- The operand that there has to be. -/
def need : Option α → OpM α
  | some a => return a
  | none   => throw .unusable

/-- Keeps objects alive until the step ends. -/
def hold (rs : List Ref) : OpM Unit := change (·.hold rs)

/-- The value of an expression, kept alive until the step ends. -/
def eval (e : Expr) : OpM Value := do
  let place ← read
  let m ← get
  let (r, heap, host) := (e.eval (place.surroundings m.store)).run.run (m.store.heap, m.host)
  set { store := { m.store with heap }, host : Machine Session }
  match r with
  | .ok v      => do
    hold v.refs
    return v
  | .error e => throw e

/-- The values of expressions, from left to right. -/
def evalEach : List Expr → OpM (List Value)
  | []      => return []
  | e :: es => do
    let v ← eval e
    return v :: (← evalEach es)

def nameOf (n : NameRef) : OpM Name := do need (n.resolve (← store).interner)

def namesOf (ns : List (Option NameRef)) : OpM SuppliedNames := do
  need (resolveNames (NameRef.resolve (← store).interner) ns)

def objectIn (r : Register) : OpM Object := do need ((← read).find? (← session) r)

def layoutIn (r : Register) : OpM LayoutId := do
  match ← objectIn r with
  | .layout l => return l
  | _ => throw .unusable

def activationIn (r : Register) : OpM ActivationId := do
  match ← objectIn r with
  | .activation a => return a
  | _ => throw .unusable

def guardIn (r : Register) : OpM GuardRef := do
  match ← objectIn r with
  | .guard g => return g
  | _ => throw .unusable

def stableIn (r : Register) : OpM StableId := do
  match ← objectIn r with
  | .stable t => return t
  | _ => throw .unusable

def resultIn (r : Register) : OpM LookupResult := do
  match ← objectIn r with
  | .result res => return res
  | _ => throw .unusable

def cacheIn (r : Register) : OpM CacheId := do
  match ← objectIn r with
  | .cache c => return c
  | _ => throw .unusable

def callableIn (r : Register) : OpM CallableId := do
  match ← objectIn r with
  | .value (.function c) => return c
  | _ => throw .unusable

def listIn (r : Register) : OpM ListId := do
  match ← objectIn r with
  | .value (.list l) => return l
  | _ => throw .unusable

def targetIn (r : Register) : OpM TargetId := do
  match ← objectIn r with
  | .target t => return t
  | _ => throw .unusable

def siteIn (r : Register) : OpM SiteId := do
  match ← objectIn r with
  | .site i => return i
  | _ => throw .unusable

def argumentsIn (r : Register) : OpM Arguments := do
  match ← objectIn r with
  | .arguments args => return args
  | _ => throw .unusable

def groupsIn (r : Register) : OpM (List GroupId) := do
  match ← objectIn r with
  | .groups gs => return gs
  | _ => throw .unusable

def signatureIn (r : Register) : OpM SuppliedNames := do
  match ← objectIn r with
  | .signature names => return names
  | _ => throw .unusable

def matchedIn (r : Register) : OpM MatchedArguments := do
  match ← objectIn r with
  | .matched m => return m
  | _ => throw .unusable

def demandIn (r : Register) : OpM CallerDemand := do
  match ← objectIn r with
  | .demand d => return d
  | _ => throw .unusable

def handleIn (r : Register) : OpM CallerHandle := do
  match ← objectIn r with
  | .handle h => return h
  | _ => throw .unusable

/-- The call in a register; without a register, the closure call that is running. -/
def invocationIn : Option Register → OpM Invocation
  | none   => do need (← read).invocation?
  | some r => do
    match ← objectIn r with
    | .invocation inv => return inv
    | _ => throw .unusable

/-! ## Outcomes -/

/-- A report without an object. -/
def report (r : Report) : OpM Outcome := return .done r

/-- A number. -/
def reportNat (n : Nat) : OpM Outcome := report (.nat n)

def reportFlag (b : Bool) : OpM Outcome := report (.flag b)

/-- A value, which is also the object that the step made. -/
def giveValue (v : Value) : OpM Outcome := do
  return .done ((← store).reportValue v) (some (.value v))

/-- A value that may be absent. -/
def giveOption (v : Option Value) : OpM Outcome := do
  return .done ((← store).reportOption v) (v.map .value)

/-- The number of a layout that may be absent. -/
def giveLayout (l : Option LayoutId) : OpM Outcome :=
  return .done (.orNull Store.reportLayoutId l) (l.map .layout)

/-- The number of an activation that may be absent. -/
def giveActivation (a : Option ActivationId) : OpM Outcome := do
  return .done (.orNull (← store).reportActivationId a) (a.map .activation)

end OpM

end ScopeCall.Script
