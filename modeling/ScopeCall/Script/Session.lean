import ScopeCall.Display
import ScopeCall.Script.Report
import ScopeCall.Script.Syntax

/-!
# `ScopeCall.Script.Session` — registers and running bodies

## Contents
- **Objects.** What a register can hold, and what it keeps alive.
- **Registers.** Setting and forgetting; a register that held the scope of a context goes back to the
  context before.
- **Sessions.** All that outlives a step.
- **Where a step runs.** `Place`: at top level, or in the body of a call.
- **Failures and outcomes.**
-/

namespace ScopeCall.Script

/-! ## Objects -/

inductive Object where
  | value (v : Value)
  | layout (l : LayoutId)
  | weakLayout (l : LayoutId)
  | activation (a : ActivationId)
  | weakActivation (a : ActivationId)
  | guard (g : GuardRef)
  | stable (t : StableId)
  | result (r : LookupResult)
  | cache (c : CacheId)
  | target (t : TargetId)
  | site (i : SiteId)
  | arguments (args : Arguments)
  | groups (groups : List GroupId)
  | signature (names : SuppliedNames)
  | matched (m : MatchedArguments)
  | demand (d : CallerDemand)
  | handle (h : CallerHandle)
  | invocation (inv : Invocation)
  /-- The stay in a context; left, it goes back to the context before. -/
  | scope (previous : Nat)
deriving Repr, Inhabited

/-- What an object keeps alive. -/
def Object.refs : Object → List Ref
  | .value v        => v.refs
  | .layout l       => [.layout l]
  | .activation a   => [.activation a]
  | .stable t       => [.stable t]
  | .result r       => r.refs
  | .cache c        => [.cache c]
  | .site i         => [.site i]
  | .arguments args => args.flatMap ArgSpec.refs
  | .groups gs      => gs.map Ref.group
  | .handle h       => h.refs
  | .invocation inv => inv.refs
  | _               => []

/-! ## Registers -/

/-- Objects by the name of the register that holds them. -/
abbrev Registers := List (Register × Object)

namespace Registers

def set (rs : Registers) (r : Register) (o : Object) : Registers :=
  match rs with
  | []          => [(r, o)]
  | entry :: rs => if entry.1 = r then (r, o) :: rs else entry :: set rs r o

def erase (rs : Registers) (r : Register) : Registers := rs.filter (·.1 ≠ r)

end Registers

/-- Keeps what a register holds alive. -/
def takeUp (o : Object) (s : Store) : Store := s.acquire o.refs

/-- Gives up what a register held. -/
def giveUp (o : Object) (s : Store) : Store :=
  let s := s.release o.refs
  match o with
  | .scope previous => s.leaveContext previous
  | _               => s

/-! ## Sessions -/

structure Session where
  registers : Registers := []
  /-- The registers local to the top level. -/
  topLocals : Registers := []
  bodies : Array (List Step) := #[]
  getters : Array Expr := #[]
  counters : List (String × Nat) := []
  /-- What bodies have logged during the running step, in order. -/
  log : Array Report := #[]
deriving Inhabited

namespace Session

/-- Counts up a counter. -/
def tick (s : Session) (counter : String) : Nat × Session :=
  let n := (s.counters.lookup counter).getD 0 + 1
  (n, { s with counters := (counter, n) :: s.counters.filter (·.1 ≠ counter) })

/-- A new getter that evaluates an expression. -/
def newGetter (s : Session) (e : Expr) : GetterId × Session :=
  (⟨s.getters.size⟩, { s with getters := s.getters.push e })

def newBody (s : Session) (body : List Step) : BodyId × Session :=
  (⟨s.bodies.size⟩, { s with bodies := s.bodies.push body })

end Session

/-! ## Where a step runs -/

/-- The call whose body is running, with the registers local to it; at top level there is none. -/
structure Place where
  entry : Option Entry := none
  locals : Registers := []
deriving Inhabited

/-- The activation of the running call. -/
def selfRegister : Register := "self"

/-- The function of the running call. -/
def calleeRegister : Register := "callee"

def isReserved (r : Register) : Bool := r == selfRegister || r == calleeRegister

def isLocal (r : Register) : Bool := r.startsWith "$"

namespace Place

/-- The registers local to a place. -/
def localRegisters (p : Place) (s : Session) : Registers :=
  match p.entry with
  | none   => s.topLocals
  | some _ => p.locals

/-- What a register holds, as seen from a place. -/
def find? (p : Place) (s : Session) (r : Register) : Option Object :=
  if r == selfRegister then p.entry.map fun e => .activation e.activation
  else if r == calleeRegister then p.entry.map fun e => .value (.function e.callable)
  else if isLocal r then (p.localRegisters s).lookup r
  else s.registers.lookup r

/-- The running call of a closure. -/
def invocation? (p : Place) : Option Invocation :=
  match p.entry with
  | some (.closure _ inv) => some inv
  | _ => none

/-- The running call of an intrinsic. -/
def intrinsicCall? (p : Place) : Option IntrinsicCall :=
  match p.entry with
  | some (.intrinsic _ call) => some call
  | _ => none

end Place

/-! ## Failures and outcomes -/

inductive Failure where
  /-- The step makes no sense: it could not be read, or a register or name is not what it needs. -/
  | unusable
  | fault (fault : Fault)
  | error (error : EvalError)
deriving Inhabited

/-- A failure as the body of a call sees it. -/
def Failure.toError : Failure → EvalError
  | .unusable => .custom "bad step"
  | .fault f  => .internal f
  | .error e  => e

/-- The entry of a failed step in the answer. -/
def Failure.report : Failure → List (String × Report)
  | .unusable => [("error", .text "BadStep")]
  | .fault f  => fields f.report
  | .error e  => fields e.report
where
  fields : Report → List (String × Report)
    | .record fields => fields
    | _              => []

/-- What a step has to answer. -/
inductive Answer where
  /-- A report, and perhaps an object for a register. -/
  | made (report : Report) (object : Option Object)
  /-- A context was entered. The answer is the context that is current when the stay has been put into
      its register, or has ended because no register keeps it. -/
  | entered (previous : Nat)
deriving Inhabited

/-- What a step came to: its answer, or a call that has to run first. -/
inductive Outcome where
  | answer (a : Answer)
  | call (entry : Entry)
deriving Inhabited

/-- A report, and perhaps an object for a register. -/
def Outcome.done (report : Report) (object : Option Object := none) : Outcome :=
  .answer (.made report object)

end ScopeCall.Script
