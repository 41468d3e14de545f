import ScopeCall.Script.Operation.Basic

/-!
# `ScopeCall.Script.Operation.Plain` — operations on names, values, errors and guards

## Contents
- `ValueOp.run`, `GuardOp.run`.
-/

namespace ScopeCall.Script

open OpM

/-- The text of an object in diagnostics. -/
def Object.show (s : Store) : Object → Option String
  | .value v          => some (s.showValue v)
  | .layout l         => some (s.showLayout l)
  | .weakLayout l     => some (s.showWeakLayout l)
  | .activation a     => some (s.showActivation a)
  | .weakActivation a => some (s.showWeakActivation a)
  | .guard g          => some (Store.showGuard (s.guardAt g))
  | .stable t         => some (s.showStable t)
  | .result r         => some (s.showResult r)
  | .cache c          => some (s.showCache c)
  | .target t         => some (s.showTarget t)
  | .demand d         => some (s.showDemand d)
  | _                 => none

/-- What there is to say about a name. -/
def reportNameOf (s : Store) (n : Name) : Report :=
  .record [("raw", .nat n.raw), ("text", s.reportName n), ("empty", .flag n.isEmpty),
    ("variadic", .flag n.isVariadic), ("debug", .text n.debug), ("default", .flag (n = .empty))]

/-- What a fresh interner makes of some texts. -/
def reportInterning (texts : List String) : Report :=
  let (names, interner) := Interner.new.internAll texts
  let spelled := (List.range (interner.size + 1)).map fun i => interner.lookup ⟨i⟩
  .record [("raws", .listOf (fun n => .nat n.raw) names), ("texts", .texts spelled),
    ("len", .nat interner.size)]

def reportDefaults : Report :=
  let limits : CacheLimits := {}
  let policy : BindingPolicy := {}
  .record [("function_depth", .nat limits.functionDepth),
    ("variadic_depth", .nat limits.variadicDepth), ("budget", .nat policy.invalidationBudget),
    ("top", .nat policy.topLevelBudget), ("max_call_depth", .nat defaultMaxDepth)]

def ValueOp.run : ValueOp → OpM Outcome
  | .intern text => do reportNat (← onStore (Store.intern text)).raw
  | .name n => do
    let n ← nameOf n
    report (reportNameOf (← store) n)
  | .interner => do
    let interner := (← store).interner
    report (.record [("len", .nat interner.size), ("empty", .flag (interner.size = 0)),
      ("debug", .text interner.debug)])
  | .ownInterner texts => report (reportInterning texts)
  | .evaluate e => do giveValue (← eval e)
  | .describe e => do
    let v ← eval e
    report (.record [("type", .text v.typeName), ("unsafe", .flag v.isContextUnsafe),
      ("callable", .flag v.asCallable?.isSome), ("value", (← store).reportValue v)])
  | .compare a b => do
    let a ← eval a
    let b ← eval b
    report (.record [("eq", .flag ((← store).heap.equal a b)), ("same", .flag (a.sameIdentity b))])
  | .copy e => do giveValue (← onHeap (Heap.copyForContext (← eval e)))
  | .force e => do
    let v ← eval e
    giveValue (← onEval fun getters => EvalM.force getters v)
  | .push l e => do
    let l ← listIn l
    let v ← eval e
    change fun s => { s with heap := s.heap.push l v }
    reportNat ((← store).heap.items l).size
  | .list l index => do
    let items := (← store).heap.items (← listIn l)
    let entry := (← store).reportOption (index.bind (items[·]?))
    report (.record [("len", .nat items.size), ("empty", .flag items.isEmpty), ("get", entry)])
  | .group e => do
    let g ← need (← eval e).asGroup?
    let entries := (← store).heap.entries g
    report (.record [("len", .nat entries.length), ("empty", .flag entries.isEmpty),
      ("names", (← store).reportNames (entries.map (·.name)))])
  | .debugValue e => do
    let v ← eval e
    report (.text ((← store).showValue v))
  | .debugObject r => do
    let o ← objectIn r
    report (.text (← need (o.show (← store))))
  | .describeError e =>
    report (.record [("error", e.report), ("display", .text e.message),
      ("kind_display", .text e.message)])
  | .raise e => throw (.error e)
  | .defaults => report reportDefaults
  | .budgetFor policy kind => reportNat (policy.budgetFor kind)

/-- One of the guards of an object. -/
def Object.guard? (s : Store) : Object → GuardChoice → Option GuardRef
  | .layout l, .noActive                  => some (.plain (s.layout l).noActiveBinding)
  | .layout l, .enclosing                 => some (.plain (s.layout l).enclosingGuard)
  | .layout l, .notModifiedNonLocally slot =>
    (s.slot? l slot).map fun info => .plain info.notModifiedNonLocally
  | .layout l, .noFanOut slot             => (s.slot? l slot).map fun info => .plain info.noFanOut
  | .result r, .lookup                    => some (.lookup r.guard)
  | .stable t, .stable                    => some (.stable t)
  | _, _                                  => none

/-- The stable value that a result refers to. -/
def stableOf? : LookupResult → Option StableId
  | .stable t _ => some t
  | _           => none

def giveGuard (g : GuardRef) : OpM Outcome := do
  return .done (Store.reportGuard ((← store).guardAt g)) (some (.guard g))

def giveStable (t : Option StableId) : OpM Outcome := do
  return .done (.orNull (← store).reportStable t) (t.map .stable)

def GuardOp.run : GuardOp → OpM Outcome
  | .make label => do giveGuard (.plain (← onStore (Store.newGuard label)))
  | .describe g => do report (Store.reportGuard ((← store).guardAt (← guardIn g)))
  | .invalidate g => do
    let g ← guardIn g
    let flipped := ((← store).guardAt g).valid
    change (·.invalidateAt g)
    reportFlag flipped
  | .same a b => do reportFlag ((← guardIn a) = (← guardIn b))
  | .ofObject r which => do
    let o ← objectIn r
    giveGuard (← need (o.guard? (← store) which))
  | .makeStable label value => do
    let v ← value.mapM eval
    giveStable (some (← onStore (Store.newStable label v)))
  | .describeStable t => do report ((← store).reportStable (← stableIn t))
  | .stableOfSlot l slot => do
    giveStable (((← store).slot? (← layoutIn l) slot).bind (·.stable))
  | .stableOfResult r => do giveStable (stableOf? (← resultIn r))
  | .sameStable a b => do reportFlag ((← stableIn a) = (← stableIn b))

end ScopeCall.Script
