import ScopeCall.Scope

/-!
# `ScopeCall.Closure` — making functions

## Contents
- **Making.** `Store.newIntrinsic`, and `Store.newClosure`, which makes a layout with a slot per
  formal, linked below the layout of the activation closed over.
- **Targets.** The shared target of a closure, and copies of it for single call sites.
-/

namespace ScopeCall

/-- What is common to both kinds of function. -/
structure CallableSpec where
  name : Name
  label : Option String := none
  formals : List Formal := []
  wantsCaller : Bool := false
  wantsDedicatedCopy : Bool := false
deriving DecidableEq, Repr, Inhabited

namespace CallableSpec

/-- The label in diagnostics of a function made without one. -/
def anonymous : String := "<function>"

def build (spec : CallableSpec) (kind : CallableKind) : Callable :=
  { name := spec.name
    label := spec.label.getD anonymous
    formals := spec.formals
    wantsCaller := spec.wantsCaller
    wantsDedicatedCopy := spec.wantsDedicatedCopy
    kind }

end CallableSpec

namespace Store

/-! ## Making -/

def newIntrinsic (spec : CallableSpec) (body : BodyId) : StoreM CallableId :=
  newCallable (spec.build (.intrinsic body))

/-- A closure over an activation. -/
def newClosure (spec : CallableSpec) (enclosing : ActivationId) (body : BodyId) :
    FaultM CallableId := do
  let l ← newLayout (spec.label.getD CallableSpec.anonymous) .function {}
  initializeEnclosing l (some ((← get).layoutOf enclosing))
  spec.formals.forM fun f => discard (findOrAddSlot l f.name)
  let target ← newTarget { body, dedicated := false }
  newCallable (spec.build (.closure l enclosing target))

/-! ## Targets -/

/-- A copy of a closure's body for one call site; intrinsics are not copied. -/
def dedicatedCopy (c : CallableId) : StoreM (Option TargetId) := do
  let s ← get
  match (s.callable c).target? with
  | none   => return none
  | some t =>
    modify (·.modifyCallable c fun callable => { callable with copies := callable.copies + 1 })
    some <$> newTarget { body := (s.target t).body, dedicated := true }

end Store

end ScopeCall
