import ScopeCall.Value

/-!
# `ScopeCall.Callable` — functions, and calls about to run

A function is told apart by identity. A closure has a layout of its own (a slot per formal), the
activation it closes over, and a target, which is a body with a count of its calls. An intrinsic has
only a body, and runs against its caller's activation.

## Contents
- **Formals and functions.** `Formal`, `Callable`, `CallTarget`.
- **Calls.** What a body sees of its call: `Invocation` for a closure, `IntrinsicCall` for an
  intrinsic. `Entry` is a call that is ready to run.
-/

namespace ScopeCall

/-! ## Formals and functions -/

structure Formal where
  name : Name
  default? : Option Value := none
deriving DecidableEq, Repr, Inhabited

namespace Formal

/-- The formal that collects the arguments that no other formal takes. -/
def variadic : Formal := ⟨.variadic, none⟩

def isVariadic (f : Formal) : Bool := f.name.isVariadic

end Formal

inductive CallableKind where
  | intrinsic (body : BodyId)
  | closure (layout : LayoutId) (enclosing : ActivationId) (target : TargetId)
deriving DecidableEq, Repr, Inhabited

structure Callable where
  name : Name
  label : String
  formals : List Formal
  /-- Whether every call hands over the caller's activation. -/
  wantsCaller : Bool
  /-- Whether every call site should run a copy of the body of its own. -/
  wantsDedicatedCopy : Bool
  kind : CallableKind
  /-- How many copies of the body have been made. -/
  copies : Nat := 0
deriving DecidableEq, Repr, Inhabited

namespace Callable

def isIntrinsic (c : Callable) : Bool :=
  match c.kind with
  | .intrinsic _ => true
  | .closure ..  => false

def layout? (c : Callable) : Option LayoutId :=
  match c.kind with
  | .intrinsic _   => none
  | .closure l _ _ => some l

def enclosing? (c : Callable) : Option ActivationId :=
  match c.kind with
  | .intrinsic _   => none
  | .closure _ a _ => some a

/-- The body that every call runs, unless its site has a copy of its own. -/
def target? (c : Callable) : Option TargetId :=
  match c.kind with
  | .intrinsic _   => none
  | .closure _ _ t => some t

/-- The properties of a function as one number: 1 for an intrinsic, 2 if it wants its caller, 4 if
    it wants dedicated copies. -/
def flagBits (c : Callable) : Nat :=
  (if c.isIntrinsic then 1 else 0) + (if c.wantsCaller then 2 else 0)
    + (if c.wantsDedicatedCopy then 4 else 0)

end Callable

/-- A body that can be run, with the number of calls that ran it through this target. -/
structure CallTarget where
  body : BodyId
  /-- Whether this is a copy made for one call site. -/
  dedicated : Bool
  calls : Nat := 0
deriving DecidableEq, Repr, Inhabited

/-! ## Calls -/

/-- Identifies the guard of a call site that is valid until some callee asks for its caller. -/
structure CallerDemand where
  index : Nat
deriving DecidableEq, Repr, Inhabited

/-- How a callee reaches the activation it was called from. -/
inductive CallerHandle where
  /-- The caller itself. -/
  | materialized (caller : ActivationId)
  /-- A reference that does not keep the caller alive, and where to record a demand for it. -/
  | elided (caller : ActivationId) (demand : CallerDemand)
deriving DecidableEq, Repr, Inhabited

namespace CallerHandle

def isMaterialized : CallerHandle → Bool
  | .materialized _ => true
  | .elided ..      => false

/-- The activation that the call was made from, dead or alive. -/
def origin : CallerHandle → ActivationId
  | .materialized a | .elided a _ => a

end CallerHandle

/-- What the body of a closure sees of its call. -/
structure Invocation where
  callable : CallableId
  /-- The callee's own activation. -/
  activation : ActivationId
  caller : CallerHandle
deriving DecidableEq, Repr, Inhabited

/-- What the body of an intrinsic sees of its call: an entry per formal, nothing for a formal that
    was neither supplied nor has a default. -/
structure IntrinsicCall where
  callable : CallableId
  caller : ActivationId
  args : List (Option Value)
deriving DecidableEq, Repr, Inhabited

/-- A call that is ready to run. -/
inductive Entry where
  | closure (target : TargetId) (invocation : Invocation)
  | intrinsic (body : BodyId) (call : IntrinsicCall)
deriving DecidableEq, Repr, Inhabited

namespace Entry

def callable : Entry → CallableId
  | .closure _ inv    => inv.callable
  | .intrinsic _ call => call.callable

/-- The activation that the body runs in: a closure's own, an intrinsic's caller's. -/
def activation : Entry → ActivationId
  | .closure _ inv    => inv.activation
  | .intrinsic _ call => call.caller

end Entry

end ScopeCall
