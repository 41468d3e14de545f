/-!
# `ScopeCall.Error` — what can go wrong, and how it is worded

Two families of errors, each a list of causes; the wording of a cause is in one function.

## Contents
- **Faults.** `Fault`: the bookkeeping of scopes was asked for something it cannot do.
- **Evaluation errors.** `EvalError`: what a running program observes. A fault raised by a call
  surfaces as `EvalError.internal`.
- **Mismatches.** `EvalError.isArgumentMismatch` singles out the errors of matching supplied
  arguments against formals.
-/

namespace ScopeCall

/-! ## Faults -/

/-- A fault in the bookkeeping of layouts, activations and call sites. -/
inductive Fault where
  /-- A layout is already linked to a different parent. -/
  | enclosingMismatch (layout : String) (expected found : Option String)
  /-- Attaching to or detaching from a layout that has no parent. -/
  | noEnclosingLayout (layout : String)
  /-- A second live activation of a layout that admits one. -/
  | singletonTaken (layout : String)
  /-- An operation for singleton layouts, asked of one that may have many activations. -/
  | notSingleton (layout : String)
  /-- A slot index past the end of a layout. -/
  | unknownSlot (layout : String) (slot : Nat)
  /-- A call site refers to a node that it never allocated. -/
  | missingCacheNode (node : Nat)
deriving DecidableEq, Repr, Inhabited

/-- The wording of a fault. -/
def Fault.message : Fault → String
  | .enclosingMismatch layout expected found =>
    "layout `" ++ layout ++ "` is enclosed by " ++ found.getD "nothing"
      ++ " but was linked to " ++ expected.getD "nothing"
  | .noEnclosingLayout layout => "layout `" ++ layout ++ "` has no enclosing layout"
  | .singletonTaken layout    => "layout `" ++ layout ++ "` already has a live activation"
  | .notSingleton layout      => "layout `" ++ layout ++ "` is not a singleton layout"
  | .unknownSlot layout slot  => "layout `" ++ layout ++ "` has no slot " ++ toString slot
  | .missingCacheNode node    => "call site has no node " ++ toString node

/-! ## Evaluation errors -/

/-- Why an evaluation failed. -/
inductive EvalError where
  /-- The callee is no function. -/
  | notCallable (typeName : String)
  /-- An argument was supplied under the empty name. -/
  | zeroLengthName
  /-- A named argument fits no formal. -/
  | unusedArgument (name : String)
  /-- Two arguments were supplied for one formal. -/
  | duplicateArgument (name : String)
  /-- A positional argument is left over and nothing collects leftovers. -/
  | tooManyArguments (callee : String) (expected got : Nat)
  /-- A formal was read that has neither a supplied value nor a default. -/
  | missingArgument (name : String)
  /-- Leftover arguments were forwarded from a scope that has none bound. -/
  | variadicOutOfContext
  /-- No scope on the chain binds the name. -/
  | undefinedVariable (name : String)
  /-- A call would nest deeper than its site allows. -/
  | stackOverflow (depth : Nat)
  | internal (fault : Fault)
  | custom (message : String)
deriving DecidableEq, Repr, Inhabited

namespace EvalError

/-- The wording of an evaluation error. -/
def message : EvalError → String
  | .notCallable typeName   => "attempt to apply non-function (" ++ typeName ++ ")"
  | .zeroLengthName         => "attempt to use zero-length variable name"
  | .unusedArgument name    => "unused argument (" ++ name ++ ")"
  | .duplicateArgument name =>
    "formal argument `" ++ name ++ "` matched by multiple actual arguments"
  | .tooManyArguments callee expected got =>
    "`" ++ callee ++ "` takes " ++ toString expected ++ " argument"
      ++ (if expected = 1 then "" else "s") ++ ", got " ++ toString got
  | .missingArgument name   => "argument `" ++ name ++ "` is missing, with no default"
  | .variadicOutOfContext   => "`...` used in an incorrect context"
  | .undefinedVariable name => "object `" ++ name ++ "` not found"
  | .stackOverflow depth    => "evaluation nested too deeply (" ++ toString depth ++ " calls)"
  | .internal fault         => "internal error: " ++ fault.message
  | .custom message         => message

/-- Whether the error comes from matching supplied arguments against formals. -/
def isArgumentMismatch : EvalError → Bool
  | .zeroLengthName | .unusedArgument _ | .duplicateArgument _ | .tooManyArguments .. => true
  | _ => false

end EvalError

end ScopeCall
