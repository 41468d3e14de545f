import ScopeCall.Chain
import ScopeCall.FanOut
import ScopeCall.Text.Quoted

/-!
# `ScopeCall.Script.Report` — what scripts report

## Contents
- **Reports.** `Report`: a tree of numbers, texts, lists and records.
- **Values and names.**
- **Errors.** A record with the kind of the error, its fields and its message.
- **Objects.** One function per kind of object.
-/

namespace ScopeCall.Script

/-! ## Reports -/

inductive Report where
  | null
  | flag (b : Bool)
  | number (n : Int)
  | text (text : String)
  | list (items : List Report)
  | record (fields : List (String × Report))
deriving Repr, Inhabited

namespace Report

def nat (n : Nat) : Report := .number n

/-- The report of a part that may be absent. -/
def orNull {α : Type} (f : α → Report) : Option α → Report
  | some a => f a
  | none   => .null

def listOf {α : Type} (f : α → Report) (as : List α) : Report := .list (as.map f)

def texts (ts : List String) : Report := listOf .text ts

end Report

end ScopeCall.Script

namespace ScopeCall

open Script

namespace Store

/-! ## Values and names -/

def reportName (s : Store) (n : Name) : Report := .text (s.spell n)

def reportNames (s : Store) (ns : SuppliedNames) : Report := .listOf (.orNull s.reportName) ns

/-- A value, with containers reported down to a depth. -/
def reportValueTo (s : Store) : Nat → Value → Report
  | _, .null       => .null
  | _, .bool b     => .flag b
  | _, .int n      => .number n.toInt
  | _, .float bits => .record [("f", .text (Text.hexPadded 16 bits.toNat))]
  | _, .text t     => .text (s.heap.text t)
  | _, .function c => .record [("fn", .text (s.callable c).label)]
  | _, .active _   => .record [("active", .flag true)]
  | n + 1, .list l => .listOf (s.reportValueTo n) (s.heap.items l).toList
  | n + 1, .group g => .record [("group", .listOf
      (fun e => .list [.orNull s.reportName e.name, s.reportValueTo n e.value])
      (s.heap.entries g))]
  | 0, _           => .null

def reportValue (s : Store) (v : Value) : Report := s.reportValueTo s.heap.depthBound v

/-- A value that may be absent. -/
def reportOption (s : Store) : Option Value → Report
  | some v => s.reportValue v
  | none   => .record [("none", .flag true)]

end Store

/-! ## Errors -/

/-- The kind of a fault, and its fields. -/
def Fault.fields : Fault → String × List (String × Report)
  | .enclosingMismatch layout expected found =>
    ("EnclosingMismatch", [("layout", .text layout), ("expected", .orNull .text expected),
      ("found", .orNull .text found)])
  | .noEnclosingLayout layout => ("NoEnclosingLayout", [("layout", .text layout)])
  | .singletonTaken layout    => ("SingletonTaken", [("layout", .text layout)])
  | .notSingleton layout      => ("NotSingleton", [("layout", .text layout)])
  | .unknownSlot layout slot  => ("UnknownSlot", [("layout", .text layout), ("slot", .nat slot)])
  | .missingCacheNode node    => ("MissingCacheNode", [("node", .nat node)])

def errorRecord (kind : String) (fields : List (String × Report)) (message : String) : Report :=
  .record (("error", .text kind) :: fields ++ [("message", .text message)])

def Fault.report (f : Fault) : Report := errorRecord f.fields.1 f.fields.2 f.message

/-- The kind of an evaluation error, and its fields. -/
def EvalError.fields : EvalError → String × List (String × Report)
  | .notCallable typeName   => ("NotCallable", [("type_name", .text typeName)])
  | .zeroLengthName         => ("ZeroLengthName", [])
  | .unusedArgument name    => ("UnusedArgument", [("name", .text name)])
  | .duplicateArgument name => ("DuplicateArgument", [("name", .text name)])
  | .tooManyArguments callee expected got =>
    ("TooManyArguments", [("callee", .text callee), ("expected", .nat expected), ("got", .nat got)])
  | .missingArgument name   => ("MissingArgument", [("name", .text name)])
  | .variadicOutOfContext   => ("VariadicOutOfContext", [])
  | .undefinedVariable name => ("UndefinedVariable", [("name", .text name)])
  | .stackOverflow depth    => ("StackOverflow", [("depth", .nat depth)])
  | .internal fault         => ("Internal", [("inner", fault.report)])
  | .custom _               => ("Custom", [])

def EvalError.report (e : EvalError) : Report :=
  let mismatch := if e.isArgumentMismatch then [("mismatch", Report.flag true)] else []
  errorRecord e.fields.1 (e.fields.2 ++ mismatch) e.message

/-! ## Objects -/

namespace Store

/-- The number of a layout, in order of creation from one. -/
def reportLayoutId (l : LayoutId) : Report := .nat (l.index + 1)

def reportActivationId (s : Store) (a : ActivationId) : Report := .nat (s.activation a).serial

def reportGuard (g : Guard) : Report :=
  .record [("label", .text g.label), ("valid", .flag g.valid)]

def reportStable (s : Store) (t : StableId) : Report :=
  .record [("value", s.reportOption (s.stable t).value), ("valid", .flag (s.stableValid t))]

def reportSlot (s : Store) (i : SlotInfo) : Report :=
  .record [("name", s.reportName i.name), ("local", .flag (s.guardValid i.notModifiedNonLocally)),
    ("no_fan_out", .flag (s.guardValid i.noFanOut)), ("may_fan_out", .flag i.mayFanOut),
    ("stable", .orNull s.reportStable i.stable), ("budget", .nat i.budget)]

def reportLayout (s : Store) (l : LayoutId) : Report :=
  let layout := s.layout l
  let known := (List.range s.interner.size).map Name.mk
  .record [("id", reportLayoutId l), ("label", .text layout.label),
    ("kind", .text layout.kind.name), ("singleton", .flag layout.kind.isSingleton),
    ("names", .listOf s.reportName layout.identifiers),
    ("slots", .listOf s.reportSlot layout.slots.toList),
    ("no_active", .flag (s.guardValid layout.noActiveBinding)),
    ("enclosing", .orNull reportLayoutId (s.parent l)),
    ("children", .listOf reportLayoutId (s.liveChildren l)),
    ("looked_up", .listOf s.reportName (known.filter layout.hasRecorded)),
    ("activation", .orNull s.reportActivationId (s.singletonActivation l))]

def reportActivation (s : Store) (a : ActivationId) : Report :=
  let act := s.activation a
  let slots := List.range (s.layout act.layout).slots.size
  .record [("id", .nat act.serial), ("layout", reportLayoutId act.layout),
    ("depth", .nat act.depth), ("enclosing", .orNull s.reportActivationId act.enclosing),
    ("irregular", .flag act.irregular),
    ("values", .listOf (fun slot => s.reportOption (s.read a slot)) slots),
    ("fanned", .listOf (fun slot => .flag (s.isFannedOut a slot)) slots)]

def reportResolved (s : Store) : Resolved → Report
  | .value v       => .record [("value", s.reportValue v)]
  | .unbound       => .text "Unbound"
  | .noInformation => .text "NoInformation"

def reportResult (s : Store) (r : LookupResult) : Report :=
  let particulars := match r with
    | .stable t _       => [("kind", .text "StableValue"), ("stable", s.reportStable t)]
    | .boundAt a slot _ => [("kind", .text "BoundAt"),
        ("activation", .orNull s.reportActivationId (s.upgradeActivation a)), ("slot", .nat slot)]
    | .unbound _        => [("kind", .text "Unbound")]
  .record (particulars ++ [("guard", .flag (s.lookupValid r.guard)),
    ("valid", .flag (s.resultValid r)), ("read", s.reportResolved (s.readResult r))])

def reportTarget (s : Store) (t : TargetId) : Report :=
  .record [("calls", .nat (s.target t).calls), ("dedicated", .flag (s.target t).dedicated)]

def reportFormal (s : Store) (f : Formal) : Report :=
  .record [("name", s.reportName f.name), ("default", s.reportOption f.default?),
    ("variadic", .flag f.isVariadic)]

def reportCallable (s : Store) (c : CallableId) : Report :=
  let callable := s.callable c
  .record [("name", s.reportName callable.name), ("label", .text callable.label),
    ("formals", .listOf s.reportFormal callable.formals), ("flags", .nat callable.flagBits),
    ("intrinsic", .list [.flag callable.isIntrinsic, .flag callable.isIntrinsic]),
    ("wants_caller", .flag callable.wantsCaller), ("wants_copy", .flag callable.wantsDedicatedCopy),
    ("layout", .orNull reportLayoutId callable.layout?),
    ("enclosing", .orNull s.reportActivationId callable.enclosing?),
    ("target", .orNull s.reportTarget callable.target?), ("copies", .nat callable.copies)]

def reportLink (link : Chain.LinkShape) : Report :=
  .record [("callee", .text link.callee), ("shapes", .nat link.shapes),
    ("generic", .flag link.generic), ("materialized", .flag link.materialized)]

def reportSite (s : Store) (i : SiteId) : Report :=
  let shape := Chain.shape s i
  .record [("source", .text (s.site i).source), ("links", .listOf reportLink shape.links),
    ("generic", .flag shape.generic)]

def reportMatch (r : MatchRecord) : Report :=
  .list [.text r.callee, .listOf (.orNull .text) r.supplied, .text r.source, .flag r.allowReorder]

def reportArguments (s : Store) (args : Arguments) : Report :=
  .record [("len", .nat args.length), ("empty", .flag args.isEmpty),
    ("forwards", .flag (Arguments.forwardsVariadic args)),
    ("specs", .listOf (fun spec => .list [.orNull s.reportName spec.name, .flag spec.isForward])
      args),
    ("names", s.reportNames (Arguments.staticNames args))]

def reportSource : FormalSource → Report
  | .supplied i   => .record [("supplied", .nat i)]
  | .collected is => .record [("collected", .listOf .nat is)]
  | .defaulted    => .text "default"
  | .missing      => .text "missing"

def reportMatched (m : MatchedArguments) : Report :=
  .record [("sources", .listOf reportSource m.sources), ("reorder", .flag m.allowsReorder)]

def reportSignature (s : Store) (names : SuppliedNames) : Report :=
  .record [("names", s.reportNames names), ("len", .nat names.length),
    ("empty", .flag names.isEmpty)]

def reportHandle (s : Store) (h : CallerHandle) : Report :=
  let caller := match h with
    | .materialized a => some a
    | .elided a _     => s.upgradeActivation a
  .record [("materialized", .flag h.isMaterialized), ("caller", .orNull s.reportActivationId caller)]

def reportInvocation (s : Store) (inv : Invocation) : Report :=
  .record [("callable", .text (s.callable inv.callable).label),
    ("activation", s.reportActivationId inv.activation),
    ("depth", .nat (s.activation inv.activation).depth), ("handle", s.reportHandle inv.caller),
    ("interner", .nat s.interner.size)]

def reportIntrinsicCall (s : Store) (call : IntrinsicCall) : Report :=
  .record [("callable", .text (s.callable call.callable).label),
    ("caller", s.reportActivationId call.caller),
    ("depth", .nat (s.activation call.caller).depth),
    ("kind", .text (s.layout (s.layoutOf call.caller)).kind.name),
    ("args", .listOf s.reportOption call.args)]

end Store

end ScopeCall
