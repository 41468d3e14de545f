import ScopeCall.Script.Operation.Basic

/-!
# `ScopeCall.Script.Operation.Call` — operations on functions and calls

## Contents
- **Functions.** `defineFunction`, `CallableOp.run`.
- **Arguments.** `ArgumentOp.run`.
- **Call sites.** `SiteOp.run`.
- **Calls.** `InvocationOp.run`.
-/

namespace ScopeCall.Script

open OpM

/-! ## Functions -/

def formal (f : FormalDef) : OpM Formal := do
  let n ← nameOf f.name
  let v ← f.default?.mapM eval
  return ⟨n, v⟩

/-- Makes a function; the defaults of its formals are evaluated here, once. -/
def defineFunction (f : FunctionDef) (body : List Step) : OpM Outcome := do
  let enclosing ← f.enclosing.mapM activationIn
  let n ← nameOf f.name
  let formals ← f.formals.mapM formal
  let body ← onSession (·.newBody body)
  let spec : CallableSpec :=
    { name := n, label := f.label, formals
      wantsCaller := f.wantsCaller, wantsDedicatedCopy := f.wantsDedicatedCopy }
  let c ← match enclosing with
    | some a => onFault (Store.newClosure spec a body)
    | none   => onStore (Store.newIntrinsic spec body)
  return .done ((← store).reportCallable c) (some (.value (.function c)))

def giveTarget (t : Option TargetId) : OpM Outcome := do
  return .done (.orNull (← store).reportTarget t) (t.map .target)

def CallableOp.run : CallableOp → OpM Outcome
  | .describe c => do report ((← store).reportCallable (← callableIn c))
  | .layout c => do giveLayout ((← store).callable (← callableIn c)).layout?
  | .target c => do giveTarget ((← store).callable (← callableIn c)).target?
  | .dedicatedCopy c => do
    let c ← callableIn c
    giveTarget (← onStore (Store.dedicatedCopy c))
  | .describeTarget t => do report ((← store).reportTarget (← targetIn t))
  | .sameTarget a b => do reportFlag ((← targetIn a) = (← targetIn b))

/-! ## Arguments -/

/-- Makes the arguments of a call expression; constants are evaluated here, once. -/
def makeArgument (arg : Argument) : OpM ArgSpec := do
  let n ← arg.name.mapM nameOf
  let expr ← match arg.expr with
    | .const e => ArgExpr.const <$> eval e
    | .read n  => do
      let c ← onStore (Store.newCache (← nameOf n))
      pure (ArgExpr.read c)
    | .forward => pure ArgExpr.forward
  return ⟨n, expr⟩

def giveSignature (names : SuppliedNames) : OpM Outcome := do
  return .done ((← store).reportSignature names) (some (.signature names))

def giveMatched (m : MatchedArguments) : OpM Outcome :=
  return .done (Store.reportMatched m) (some (.matched m))

def ArgumentOp.run : ArgumentOp → OpM Outcome
  | .make args => do
    let args ← args.mapM makeArgument
    return .done ((← store).reportArguments args) (some (.arguments args))
  | .checkNames args => do
    ofExcept (Arguments.checkNames (← argumentsIn args))
    report .null
  | .makeGroups values => do
    let gs ← (← evalEach values).mapM fun v => need v.asGroup?
    return .done .null (some (.groups gs))
  | .readGroups args a => do
    let args ← argumentsIn args
    let a ← activationIn a
    let s ← store
    let gs ← ofExcept (Arguments.readGroups args s a)
    return .done (.listOf (fun g => s.reportValue (.group g)) gs) (some (.groups gs))
  | .signature args gs => do
    let args ← argumentsIn args
    let gs ← groupsIn gs
    giveSignature (Arguments.flattenedNames args (Arguments.entriesOf (← store) gs))
  | .sameSignature a b => do reportFlag ((← signatureIn a) = (← signatureIn b))
  | .evaluate args gs a => do
    let args ← argumentsIn args
    let gs ← groupsIn gs
    let a ← activationIn a
    let entries := Arguments.entriesOf (← store) gs
    let vs ← onEval fun getters => Arguments.evaluate getters a args entries
    report (.listOf (← store).reportValue vs)
  | .matchNames c supplied reorder => do
    let c ← callableIn c
    let supplied ← namesOf supplied
    giveMatched (← ofExcept ((← store).matchStandard c supplied reorder))
  | .makeMatched m => giveMatched m
  | .bind m c ns values => do
    let m ← matchedIn m
    let c ← callableIn c
    let ns ← namesOf ns
    let vs ← evalEach values
    let bound ← onHeap (m.bind ((← store).callable c).formals ns vs)
    report (.listOf (← store).reportOption bound)

/-! ## Call sites -/

def makeSite (site : Site) : OpM SiteId := do
  let callee ← match site.callee with
    | .value e => CalleeExpr.value <$> eval e
    | .read n  => do
      let c ← onStore (Store.newCache (← nameOf n))
      pure (CalleeExpr.read c)
  let args ← site.args.mapM makeArgument
  onStore (Store.newSite
    { callee, args, source := site.source, limits := site.limits, matcher := site.matcher
      maxDepth := site.maxDepth })

def SiteOp.run : SiteOp → OpM Outcome
  | .make site => do return .done .null (some (.site (← makeSite site)))
  | .execute i a => do
    let i ← siteIn i
    let a ← activationIn a
    hold [.site i, .activation a]
    return .call (← onEval fun getters => Chain.executeSite getters i a)
  | .executeWith i a c => do
    let i ← siteIn i
    let a ← activationIn a
    let c ← callableIn c
    hold [.site i, .activation a, .callable c]
    return .call (← onEval fun getters => Chain.execute getters i a c)
  | .describe i => do report ((← store).reportSite (← siteIn i))
  | .matchLog => do report (.listOf Store.reportMatch (← store).matchLog)

/-! ## Calls -/

def giveHandle (h : CallerHandle) : OpM Outcome := do
  return .done ((← store).reportHandle h) (some (.handle h))

def InvocationOp.run : InvocationOp → OpM Outcome
  | .makeDemand needed => do
    let d ← onStore (Store.newDemand needed)
    return .done (.flag ((← store).demandNeeded d)) (some (.demand d))
  | .describeDemand d => do reportFlag ((← store).demandNeeded (← demandIn d))
  | .demandNow d => do
    let d ← demandIn d
    change (·.demandCaller d)
    report .null
  | .handleFor d a => do
    let d ← demandIn d
    let a ← activationIn a
    giveHandle ((← store).handleFor d a)
  | .describeHandle h => do report ((← store).reportHandle (← handleIn h))
  | .invoke a c t args d maxDepth => do
    let a ← activationIn a
    let c ← callableIn c
    let t ← t.mapM targetIn
    let args ← args.mapM fun arg => arg.mapM eval
    let d ← demandIn d
    hold [.activation a]
    return .call (← onCall (Store.invoke maxDepth a c t args d))
  | .make c a h => do
    let inv : Invocation := ⟨← callableIn c, ← activationIn a, ← handleIn h⟩
    return .done .null (some (.invocation inv))
  | .describe inv => do report ((← store).reportInvocation (← invocationIn inv))
  | .caller inv => do giveActivation (← onStore (Store.callerOf (← invocationIn inv).caller))
  | .argument inv n => do
    let inv ← invocationIn inv
    let v ← ofExcept ((← store).argument inv (← nameOf n))
    giveValue (← onEval fun getters => EvalM.force getters v)
  | .leftovers inv => do
    giveOption (((← store).leftovers (← invocationIn inv)).map .group)
  | .intrinsicCall => do report ((← store).reportIntrinsicCall (← need (← read).intrinsicCall?))

end ScopeCall.Script
