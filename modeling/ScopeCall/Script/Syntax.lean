import ScopeCall.Chain

/-!
# `ScopeCall.Script.Syntax` — scripts

A script is a list of steps; each step asks for one operation of the library on objects kept in named
registers. Function bodies are scripts as well.

## Contents
- **Expressions.** `Expr`: values made, read or computed.
- **Operations.** One type per kind of object.
- **Steps.** An operation with what to do with its outcome, the definition of a function, and, in
  bodies, a choice and the end of the body.
-/

namespace ScopeCall.Script

/-- The name of a register. A register whose name starts with `$` is local to the running body. -/
abbrev Register := String

/-- A name as a script gives it: a text that is interned, or a number. -/
inductive NameRef where
  | text (text : String)
  | raw (number : Nat)
deriving DecidableEq, Repr, Inhabited

/-! ## Expressions -/

inductive Arithmetic where
  | add
  | sub
  | mul
deriving DecidableEq, Repr, Inhabited

inductive Comparison where
  /-- Order of integers. -/
  | less
  /-- Equality by content. -/
  | equal
  /-- Sameness of identity. -/
  | same
deriving DecidableEq, Repr, Inhabited

inductive Expr where
  | null
  | bool (b : Bool)
  | int (n : Int64)
  | float (bits : UInt64)
  /-- A new text object. -/
  | text (text : String)
  /-- A new list object. -/
  | list (items : List Expr)
  /-- A new group object; names and values go in pairs. -/
  | group (names : List (Option NameRef)) (values : List Expr)
  /-- A new active binding, which evaluates the expression each time it is read. -/
  | active (getter : Expr)
  | register (r : Register)
  /-- Counts up a counter, and gives the new count. -/
  | tick (counter : String)
  /-- An argument of the running closure call. -/
  | argument (n : NameRef)
  /-- An argument of the running intrinsic call. -/
  | intrinsicArgument (i : Nat)
  | arithmetic (op : Arithmetic) (a b : Expr)
  | comparison (op : Comparison) (a b : Expr)
  /-- An expression that could not be read. -/
  | malformed
deriving Repr, Inhabited

/-! ## Operations -/

inductive ValueOp where
  | intern (text : String)
  | name (n : NameRef)
  | interner
  | ownInterner (texts : List String)
  | evaluate (e : Expr)
  | describe (e : Expr)
  | compare (a b : Expr)
  | copy (e : Expr)
  | force (e : Expr)
  | push (list : Register) (e : Expr)
  | list (list : Register) (index : Option Nat)
  | group (e : Expr)
  | debugValue (e : Expr)
  | debugObject (r : Register)
  | describeError (error : EvalError)
  | raise (error : EvalError)
  | defaults
  | budgetFor (policy : BindingPolicy) (kind : LayoutKind)
deriving Repr, Inhabited

/-- One of the guards that an object carries. -/
inductive GuardChoice where
  | noActive
  | enclosing
  | notModifiedNonLocally (slot : Nat)
  | noFanOut (slot : Nat)
  | lookup
  | stable
deriving Repr, Inhabited

inductive GuardOp where
  | make (label : String)
  | describe (guard : Register)
  | invalidate (guard : Register)
  | same (a b : Register)
  | ofObject (object : Register) (which : GuardChoice)
  | makeStable (label : String) (value : Option Expr)
  | describeStable (stable : Register)
  | stableOfSlot (layout : Register) (slot : Nat)
  | stableOfResult (result : Register)
  | sameStable (a b : Register)
deriving Repr, Inhabited

inductive LayoutOp where
  | make (label : String) (kind : LayoutKind) (policy : BindingPolicy)
  | describe (layout : Register)
  | slot (layout : Register) (slot : Nat)
  | slotIndex (layout : Register) (n : NameRef)
  | findOrAdd (layout : Register) (n : NameRef)
  | hasLookedUp (layout : Register) (n : NameRef)
  | initializeEnclosing (layout : Register) (parent : Option Register)
  | relink (layout : Register) (parent : Option Register)
  | invalidateNames (layout : Register) (names : List NameRef)
  | invalidateAll (layout : Register)
  | enclosing (layout : Register)
  | same (a b : Register)
  | weak (layout : Register)
  | sameWeak (a b : Register)
  | upgrade (weak : Register)
deriving Repr, Inhabited

inductive ActivationOp where
  | make (layout : Register) (enclosing : Option Register) (depth : Nat)
  | describe (act : Register)
  | layout (act : Register)
  | enclosing (act : Register)
  | ofLayout (layout : Register)
  | same (a b : Register)
  | weak (act : Register)
  | upgrade (weak : Register)
  | read (act : Register) (slot : Nat)
  | readName (act : Register) (n : NameRef)
  | define (act : Register) (n : NameRef) (e : Expr)
  | assign (act : Register) (n : NameRef) (e : Expr)
  | defineActive (act : Register) (n : NameRef) (getter : Expr)
  | write (act : Register) (slot : Nat) (e : Expr) (nonLocal : Bool)
  | remove (act : Register) (n : NameRef)
  | markIrregular (act : Register)
  | setEnclosing (act : Register) (parent : Option Register)
  | attach (act inserted : Register)
  | detach (act : Register)
deriving Repr, Inhabited

inductive LookupOp where
  | resolve (act : Register) (n : NameRef)
  | describe (result : Register)
  | dynamic (act : Register) (n : NameRef)
  | makeCache (n : NameRef)
  | cacheRead (cache act : Register)
  | cacheGet (cache act : Register)
  | cacheState (cache : Register)
deriving Repr, Inhabited

inductive ContextOp where
  | describe
  | register (additional : Nat)
  | enter (context : Nat)
  | write (act : Register) (slot : Nat) (e : Expr)
  | read (act : Register) (slot context : Nat)
  | fanned (act : Register) (slot : Nat)
  | fanSlot (act : Register) (slot : Nat) (contexts : List Nat) (replicate : Bool)
  | fanAll (act : Register) (contexts : List Nat) (replicate : Bool)
  | clean (act : Register) (contexts : Option (List Nat))
deriving Repr, Inhabited

inductive CallableOp where
  | describe (callable : Register)
  | layout (callable : Register)
  | target (callable : Register)
  | dedicatedCopy (callable : Register)
  | describeTarget (target : Register)
  | sameTarget (a b : Register)
deriving Repr, Inhabited

inductive ArgumentExpr where
  | const (e : Expr)
  | read (n : NameRef)
  | forward
deriving Repr, Inhabited

structure Argument where
  name : Option NameRef
  expr : ArgumentExpr
deriving Repr, Inhabited

inductive Callee where
  | read (n : NameRef)
  | value (e : Expr)
deriving Repr, Inhabited

structure Site where
  callee : Callee
  args : List Argument
  source : String
  limits : CacheLimits
  maxDepth : Nat
  matcher : Matcher
deriving Repr, Inhabited

inductive SiteOp where
  | make (site : Site)
  | execute (site act : Register)
  | executeWith (site act callable : Register)
  | describe (site : Register)
  | matchLog
deriving Repr, Inhabited

inductive ArgumentOp where
  | make (args : List Argument)
  | checkNames (args : Register)
  | makeGroups (values : List Expr)
  | readGroups (args act : Register)
  | signature (args groups : Register)
  | sameSignature (a b : Register)
  | evaluate (args groups act : Register)
  | matchNames (callable : Register) (supplied : List (Option NameRef)) (reorder : Bool)
  | makeMatched (matched : MatchedArguments)
  | bind (matched callable : Register) (names : List (Option NameRef)) (values : List Expr)
deriving Repr, Inhabited

inductive InvocationOp where
  | makeDemand (needed : Bool)
  | describeDemand (demand : Register)
  | demandNow (demand : Register)
  | handleFor (demand act : Register)
  | describeHandle (handle : Register)
  | invoke (act callable : Register) (target : Option Register) (args : List (Option Expr))
      (demand : Register) (maxDepth : Nat)
  | make (callable act handle : Register)
  | describe (inv : Option Register)
  | caller (inv : Option Register)
  | argument (inv : Option Register) (n : NameRef)
  | leftovers (inv : Option Register)
  | intrinsicCall
deriving Repr, Inhabited

inductive Operation where
  | value (op : ValueOp)
  | guard (op : GuardOp)
  | layout (op : LayoutOp)
  | activation (op : ActivationOp)
  | lookup (op : LookupOp)
  | context (op : ContextOp)
  | callable (op : CallableOp)
  | site (op : SiteOp)
  | argument (op : ArgumentOp)
  | invocation (op : InvocationOp)
  /-- Forgets a register. -/
  | drop (r : Register)
  /-- A step that could not be read. -/
  | malformed
deriving Repr, Inhabited

/-! ## Steps -/

/-- What to do with the outcome of a step. -/
structure Options where
  /-- The register for the object that the step made. -/
  save : Option Register := none
  /-- In a body: whether the outcome goes to the log. -/
  logged : Bool := false
  /-- In a body: whether the body goes on if the step fails. -/
  tolerant : Bool := false
deriving Repr, Inhabited

structure FormalDef where
  name : NameRef
  default? : Option Expr := none
deriving Repr, Inhabited

/-- A function, its body apart. Without an activation to close over it is an intrinsic. -/
structure FunctionDef where
  name : NameRef
  label : Option String
  formals : List FormalDef
  wantsCaller : Bool
  wantsDedicatedCopy : Bool
  enclosing : Option Register
deriving Repr, Inhabited

inductive Step where
  | perform (op : Operation) (options : Options)
  | define (function : FunctionDef) (body : List Step) (options : Options)
  /-- In a body: ends it with a value. -/
  | give (e : Expr)
  /-- In a body: goes on with the first branch exactly if the condition is true. -/
  | choose (cond : Expr) (yes no : List Step)
deriving Repr, Inhabited

end ScopeCall.Script
