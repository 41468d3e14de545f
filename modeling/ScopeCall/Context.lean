import ScopeCall.Scope

/-!
# `ScopeCall.Context` — execution contexts

Several contexts may evaluate against the same singleton activations. A context is an index; index 0
is the one in which every program starts.

## Contents
- Handing out indices: `Store.registerContexts`.
- Entering and leaving: `Store.enterContext` answers what to go back to.
-/

namespace ScopeCall

/-- The context in which every program starts. -/
def primordial : Nat := 0

/-- How many indices can be told apart. -/
def contextIndexBound : Nat := UInt64.size

namespace Store

/-- Hands out `additional` fresh indices; answers the first and the end. -/
def registerContexts (additional : Nat) : StoreM (Nat × Nat) :=
  modifyGet fun s =>
    let start := s.contexts.count
    ((start, min (start + additional) (contextIndexBound - 1)),
      { s with contexts.count := (start + additional) % contextIndexBound })

/-- Makes a context the current one; answers the context that was current before. -/
def enterContext (context : Nat) : StoreM Nat :=
  modifyGet fun s => (s.contexts.current, { s with contexts.current := context })

/-- Goes back to a context that was current before. -/
def leaveContext (s : Store) (previous : Nat) : Store := { s with contexts.current := previous }

/-- How many entries a slot needs that has to hold a value for the context `atLeast`, and for every
    context handed out. -/
def contextRoom (s : Store) (atLeast : Nat) : Nat := max s.contexts.count (atLeast + 1)

end Store

end ScopeCall
