import ScopeCall.Closure
import ScopeCall.Matching

/-!
# `ScopeCall.Invoke` — transfer of control to a callee

Arguments are already matched here: one entry per formal. A closure gets a fresh activation of its
layout with the arguments bound to the slots of its formals; an intrinsic runs against its caller's
activation. The outcome is an `Entry`, a call that is ready to run.

## Contents
- `Store.invoke`.
-/

namespace ScopeCall

namespace Store

/-- Binds the arguments that have a value, each in the slot of its formal. -/
def bindArguments (a : ActivationId) : List (Formal × Option Value) → FaultM Unit
  | [] => return
  | (f, some v) :: rest => do
    let slot ← findOrAddSlot ((← get).layoutOf a) f.name
    write a slot v false
    bindArguments a rest
  | (_, none) :: rest => bindArguments a rest

/-- The depth of a call made from an activation. -/
def calleeDepth (s : Store) (caller : ActivationId) : Nat :=
  min ((s.activation caller).depth + 1) depthLimit

/-- Calls a function from `caller`. `target` is the body to run in place of the shared one; `demand`
    decides what handle on the caller the callee gets, unless it always wants the caller. -/
def invoke (maxDepth : Nat) (caller : ActivationId) (c : CallableId) (target : Option TargetId)
    (args : List (Option Value)) (demand : CallerDemand) : CallM Entry := do
  modify (·.hold (.callable c :: args.flatMap fun v => (v.map Value.refs).getD []))
  let s ← get
  let callable := s.callable c
  match callable.kind with
  | .intrinsic body => return .intrinsic body { callable := c, caller, args }
  | .closure l enclosing shared =>
    let depth := s.calleeDepth caller
    if depth > maxDepth then throw (.stackOverflow depth)
    let a ← CallM.ofFaultM (newScope l (some enclosing) depth)
    modify (·.hold [.activation a])
    CallM.ofFaultM (bindArguments a (callable.formals.zip args))
    let s ← get
    let handle := if callable.wantsCaller then .materialized caller else s.handleFor demand caller
    let target := target.getD shared
    modify (·.modifyTarget target fun t => { t with calls := t.calls + 1 })
    return .closure target { callable := c, activation := a, caller := handle }

end Store

end ScopeCall
