import ScopeCall.Scope

/-!
# `ScopeCall.Invocation` — what a callee sees of its call

A call hands its callee a handle on the caller. As long as no callee of a call site has asked for its
caller, the handle keeps nothing alive; the first request makes the site hand over the caller itself
from then on.

## Contents
- **Demand.** Whether the caller has been asked for.
- **Inside a call.** The caller, the arguments and the leftover arguments.
-/

namespace ScopeCall

/-- An operation that may end in an evaluation error; what it did before the error stays done. -/
abbrev CallM := ExceptT EvalError StoreM

/-- Runs an operation whose faults surface as evaluation errors. -/
def CallM.ofFaultM {α : Type} (act : FaultM α) : CallM α := ExceptT.mk do
  match ← act.run with
  | .ok r        => return .ok r
  | .error fault => return .error (.internal fault)

namespace Store

/-! ## Demand -/

def newDemand (needed : Bool) : StoreM CallerDemand :=
  modifyGet fun s =>
    (⟨s.demands.size⟩,
      { s with demands := s.demands.push ⟨"caller activation not needed", !needed⟩ })

def demandNeeded (s : Store) (d : CallerDemand) : Bool := !(s.demand d).valid

/-- Records that a callee asked for its caller. -/
def demandCaller (s : Store) (d : CallerDemand) : Store :=
  { s with demands := s.demands.modify d.index Guard.fallen }

/-- The handle for a call made from `caller`. -/
def handleFor (s : Store) (d : CallerDemand) (caller : ActivationId) : CallerHandle :=
  if s.demandNeeded d then .materialized caller else .elided caller d

/-! ## Inside a call -/

/-- The activation that a call was made from, if it is still alive. Asking for it is recorded. -/
def callerOf (h : CallerHandle) : StoreM (Option ActivationId) :=
  match h with
  | .materialized a => return some a
  | .elided a d     => do
    modify (·.demandCaller d)
    return (← get).upgradeActivation a

/-- The value bound to a formal; an active binding is not run. -/
def argument (s : Store) (inv : Invocation) (n : Name) : Except EvalError Value :=
  match s.readName inv.activation n with
  | some v => .ok v
  | none   => .error (.missingArgument (s.spell n))

/-- The leftover arguments of a call, if its callee collects them. -/
def leftovers (s : Store) (inv : Invocation) : Option GroupId :=
  (s.readName inv.activation .variadic).bind Value.asGroup?

/-- The argument for the formal at a position of an intrinsic; an active binding is not run. -/
def intrinsicArgument (s : Store) (call : IntrinsicCall) (i : Nat) : Except EvalError Value :=
  match call.args[i]?.join with
  | some v => .ok v
  | none   =>
    let name := ((s.callable call.callable).formals[i]?.map fun f => s.spell f.name)
    .error (.missingArgument (name.getD "<unknown>"))

end Store

end ScopeCall
