import ScopeCall.Script.Operation.Basic

/-!
# `ScopeCall.Script.Operation.Environment` — operations on scopes

## Contents
- `LayoutOp.run`, `ActivationOp.run`, `LookupOp.run`, `ContextOp.run`.
-/

namespace ScopeCall.Script

open OpM

def LayoutOp.run : LayoutOp → OpM Outcome
  | .make label kind policy => do giveLayout (some (← onStore (Store.newLayout label kind policy)))
  | .describe l => do report ((← store).reportLayout (← layoutIn l))
  | .slot l i => do
    report (.orNull (← store).reportSlot ((← store).slot? (← layoutIn l) i))
  | .slotIndex l n => do
    let l ← layoutIn l
    report (.orNull .nat (((← store).layout l).slotIndex? (← nameOf n)))
  | .findOrAdd l n => do
    let l ← layoutIn l
    let n ← nameOf n
    reportNat (← onStore (Store.findOrAddSlot l n))
  | .hasLookedUp l n => do
    let l ← layoutIn l
    reportFlag (((← store).layout l).hasRecorded (← nameOf n))
  | .initializeEnclosing l parent => do
    let l ← layoutIn l
    let parent ← parent.mapM layoutIn
    onFault (Store.initializeEnclosing l parent)
    report .null
  | .relink l parent => do
    let l ← layoutIn l
    let parent ← parent.mapM layoutIn
    onStore (Store.relinkTo l parent)
    report .null
  | .invalidateNames l ns => do
    let l ← layoutIn l
    let ns ← ns.mapM nameOf
    change (·.invalidateNames l ns)
    report .null
  | .invalidateAll l => do
    let l ← layoutIn l
    change (·.invalidateAll l)
    report .null
  | .enclosing l => do giveLayout ((← store).parent (← layoutIn l))
  | .same a b => do reportFlag ((← layoutIn a) = (← layoutIn b))
  | .weak l => do return .done .null (some (.weakLayout (← layoutIn l)))
  | .sameWeak a b => do
    match ← objectIn a, ← objectIn b with
    | .weakLayout a, .weakLayout b => reportFlag (a = b)
    | _, _ => throw .unusable
  | .upgrade w => do
    match ← objectIn w with
    | .weakLayout l => giveLayout ((← store).upgradeLayout l)
    | _ => throw .unusable

def ActivationOp.run : ActivationOp → OpM Outcome
  | .make l outer depth => do
    let l ← layoutIn l
    let outer ← outer.mapM activationIn
    giveActivation (some (← onFault (Store.newScope l outer depth)))
  | .describe a => do report ((← store).reportActivation (← activationIn a))
  | .layout a => do giveLayout (some ((← store).layoutOf (← activationIn a)))
  | .enclosing a => do giveActivation ((← store).activation (← activationIn a)).enclosing
  | .ofLayout l => do giveActivation ((← store).singletonActivation (← layoutIn l))
  | .same a b => do reportFlag ((← activationIn a) = (← activationIn b))
  | .weak a => do return .done .null (some (.weakActivation (← activationIn a)))
  | .upgrade w => do
    match ← objectIn w with
    | .weakActivation a => giveActivation ((← store).upgradeActivation a)
    | _ => throw .unusable
  | .read a slot => do giveOption ((← store).read (← activationIn a) slot)
  | .readName a n => do
    let a ← activationIn a
    giveOption ((← store).readName a (← nameOf n))
  | .define a n e => do
    let a ← activationIn a
    let n ← nameOf n
    let v ← eval e
    reportNat (← onFault (Store.define a n v))
  | .assign a n e => do
    let a ← activationIn a
    let n ← nameOf n
    let v ← eval e
    reportNat (← onFault (Store.assignNonLocal a n v))
  | .defineActive a n getter => do
    let a ← activationIn a
    let n ← nameOf n
    let g ← onSession (·.newGetter getter)
    reportNat (← onFault (Store.setActiveBinding a n g))
  | .write a slot e nonLocal => do
    let a ← activationIn a
    let v ← eval e
    onFault (Store.write a slot v nonLocal)
    report .null
  | .remove a n => do
    let a ← activationIn a
    let n ← nameOf n
    reportFlag (← onStore (Store.remove a n))
  | .markIrregular a => do
    let a ← activationIn a
    change (·.markIrregular a)
    report .null
  | .setEnclosing a parent => do
    let a ← activationIn a
    let parent ← parent.mapM activationIn
    onFault (Store.setEnclosing a parent)
    report .null
  | .attach a inserted => do
    let a ← activationIn a
    let inserted ← activationIn inserted
    onFault (Store.attach a inserted)
    report .null
  | .detach a => do giveActivation (← onFault (Store.detachEnclosing (← activationIn a)))

def giveResult (r : Option LookupResult) : OpM Outcome := do
  return .done (.orNull (← store).reportResult r) (r.map .result)

def LookupOp.run : LookupOp → OpM Outcome
  | .resolve a n => do
    let a ← activationIn a
    let n ← nameOf n
    giveResult (← onStore (Store.resolve a n))
  | .describe r => do report ((← store).reportResult (← resultIn r))
  | .dynamic a n => do
    let a ← activationIn a
    report ((← store).reportOption ((← store).lookupDynamic a (← nameOf n)))
  | .makeCache n => do
    let n ← nameOf n
    let c ← onStore (Store.newCache n)
    return .done ((← store).reportName n) (some (.cache c))
  | .cacheRead c a => do
    let c ← cacheIn c
    let a ← activationIn a
    giveOption (← onEval fun getters => EvalM.read getters c a)
  | .cacheGet c a => do
    let c ← cacheIn c
    let a ← activationIn a
    giveValue (← onEval fun getters => EvalM.readOrError getters c a)
  | .cacheState c => do giveResult (((← store).cache (← cacheIn c)).cached.map (·.2))

def ContextOp.run : ContextOp → OpM Outcome
  | .describe => do
    let contexts := (← store).contexts
    report (.record [("len", .nat contexts.count), ("empty", .flag false),
      ("current", .nat contexts.current)])
  | .register additional => do
    let (start, stop) ← onStore (Store.registerContexts additional)
    report (.list [.nat start, .nat stop])
  | .enter context => do return .answer (.entered (← onStore (Store.enterContext context)))
  | .write a slot e => do
    let a ← activationIn a
    let v ← eval e
    onFault (Store.writeInContext a slot v)
    report .null
  | .read a slot context => do giveOption ((← store).readIn (← activationIn a) slot context)
  | .fanned a slot => do reportFlag ((← store).isFannedOut (← activationIn a) slot)
  | .fanSlot a slot contexts replicate => do
    let a ← activationIn a
    reportFlag (← onFault (Store.fanOutSlot a slot contexts replicate))
  | .fanAll a contexts replicate => do
    let a ← activationIn a
    reportNat (← onFault (Store.fanOutAll a contexts replicate))
  | .clean a contexts => do
    let a ← activationIn a
    change (·.cleanFanOut a contexts)
    report .null

end ScopeCall.Script
