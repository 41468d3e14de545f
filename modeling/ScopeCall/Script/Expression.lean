import ScopeCall.Script.Session

/-!
# `ScopeCall.Script.Expression` — evaluating expressions

An expression makes texts, lists and groups, and counts; it changes no scope. So evaluation runs on the
heap and the session, and everything else is fixed while it lasts.

## Contents
- **Surroundings.** What an expression can refer to.
- **Evaluation.** `Expr.eval`.
- **Getters.** An active binding evaluates its expression with no call around it; if that fails, the
  value is null.
- **In a step.** `Place.surroundings`: the arguments of the running call can be read.
-/

namespace ScopeCall.Script

/-- Evaluation of an expression. -/
abbrev ExprM := ExceptT Failure (StateM (Heap × Session))

namespace ExprM

def heap : ExprM Heap := return (← get).1

def onHeap {α : Type} (act : StateM Heap α) : ExprM α :=
  modifyGet fun (heap, session) => let (r, heap) := act.run heap; (r, (heap, session))

def onSession {α : Type} (act : Session → α × Session) : ExprM α :=
  modifyGet fun (heap, session) => let (r, session) := act session; (r, (heap, session))

end ExprM

/-! ## Surroundings -/

/-- What an expression can refer to. -/
structure Surroundings where
  register : Session → Register → Option Object
  name : NameRef → Option Name
  argument : Name → ExprM Value
  intrinsicArgument : Nat → ExprM Value

/-- The name that a script means, if it is known. -/
def NameRef.resolve (interner : Interner) : NameRef → Option Name
  | .text t => interner.find? t
  | .raw n  => some ⟨n⟩

/-- Fails if there is nothing. -/
def require {α : Type} : Option α → ExprM α
  | some a => return a
  | none   => throw .unusable

/-- Names of arguments, each of which may be absent. -/
def resolveNames (resolve : NameRef → Option Name) (names : List (Option NameRef)) :
    Option SuppliedNames :=
  names.mapM fun
    | none   => some none
    | some n => (resolve n).map some

/-! ## Evaluation -/

def Arithmetic.apply : Arithmetic → Int64 → Int64 → Int64
  | .add, a, b => a + b
  | .sub, a, b => a - b
  | .mul, a, b => a * b

/-- The integer that an operand has to be. -/
def expectInt : Value → ExprM Int64
  | .int n => return n
  | v      => throw (.error (.custom ("expected int, got " ++ v.typeName)))

def Comparison.apply (op : Comparison) (a b : Value) : ExprM Bool :=
  match op with
  | .less  => return (← expectInt a) < (← expectInt b)
  | .equal => return (← ExprM.heap).equal a b
  | .same  => return a.sameIdentity b

mutual

/-- The value of an expression; operands and elements from left to right. -/
def Expr.eval (env : Surroundings) : Expr → ExprM Value
  | .null        => return .null
  | .bool b      => return .bool b
  | .int n       => return .int n
  | .float bits  => return .float bits
  | .text t      => .text <$> ExprM.onHeap (Heap.newText t)
  | .list items  => do
    let vs ← evalAll env items
    .list <$> ExprM.onHeap (Heap.newList vs.toArray)
  | .group names values => do
    let entries ← evalEntries env names values
    .group <$> ExprM.onHeap (Heap.newGroup entries)
  | .active getter => .active <$> ExprM.onSession (·.newGetter getter)
  | .register r => do
    match env.register (← get).2 r with
    | some (.value v) => return v
    | _               => throw .unusable
  | .tick counter => do
    let n ← ExprM.onSession (·.tick counter)
    return .int (Int64.ofNat n)
  | .argument n          => do env.argument (← require (env.name n))
  | .intrinsicArgument i => env.intrinsicArgument i
  | .arithmetic op a b   => do
    let a ← a.eval env
    let b ← b.eval env
    return .int (op.apply (← expectInt a) (← expectInt b))
  | .comparison op a b   => do
    let a ← a.eval env
    let b ← b.eval env
    .bool <$> op.apply a b
  | .malformed => throw .unusable

def evalAll (env : Surroundings) : List Expr → ExprM (List Value)
  | []      => return []
  | e :: es => do
    let v ← e.eval env
    return v :: (← evalAll env es)

/-- The entries of a group, one after the other, the name of each before its value. -/
def evalEntries (env : Surroundings) :
    List (Option NameRef) → List Expr → ExprM (List GroupEntry)
  | n :: ns, e :: es => do
    let name ← n.mapM fun n => require (env.name n)
    let value ← e.eval env
    return ⟨name, value⟩ :: (← evalEntries env ns es)
  | _, _ => return []

end

/-! ## Getters -/

/-- What the expression of a getter can refer to: registers that are not local, and names. -/
def getterSurroundings (interner : Interner) : Surroundings where
  register s r := if isLocal r || isReserved r then none else s.registers.lookup r
  name := NameRef.resolve interner
  argument _ := throw .unusable
  intrinsicArgument _ := throw .unusable

/-- How getters are run while `interner` holds the known names. -/
def runGetter (interner : Interner) : Getters Session := fun g => do
  let e := ((← get).2.getters[g.index]?).getD .malformed
  match ← (e.eval (getterSurroundings interner)).run with
  | .ok v    => return v
  | .error _ => return .null

/-- The value of an argument, with an active binding run. -/
def forceArgument (s : Store) : Except EvalError Value → ExprM Value
  | .ok (.active g) => ExceptT.lift (runGetter s.interner g)
  | .ok v           => return v
  | .error e        => throw (.error e)

/-! ## In a step -/

/-- What an expression of a step can refer to. -/
def Place.surroundings (p : Place) (s : Store) : Surroundings where
  register := p.find?
  name := NameRef.resolve s.interner
  argument n := do forceArgument s (s.argument (← require p.invocation?) n)
  intrinsicArgument i := do forceArgument s (s.intrinsicArgument (← require p.intrinsicCall?) i)

end ScopeCall.Script
