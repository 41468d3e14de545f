import ScopeCall.Lookup
import ScopeCall.Invocation

/-!
# `ScopeCall.Evaluation` — running active bindings

The library itself runs no code of the embedding program but one kind: the getters of active bindings.
A getter computes a value; it may change the embedding program's own state and make texts, lists and
groups, but it has no access to scopes or call sites.

## Contents
- `Machine`: the store together with the state of the embedding program.
- `EvalM`: evaluation on a machine.
- `force` runs an active binding; `readOrError` reads a name through a read site.
-/

namespace ScopeCall

/-- The store, and the state `σ` of the program that embeds this library. -/
structure Machine (σ : Type) where
  store : Store
  host : σ

/-- How the embedding program runs its getters. -/
abbrev Getters (σ : Type) := GetterId → StateM (Heap × σ) Value

/-- Evaluation that may end in an error; what was done before the error stays done. -/
abbrev EvalM (σ : Type) := ExceptT EvalError (StateM (Machine σ))

namespace EvalM

variable {σ α : Type}

/-- Runs an operation on the store. -/
def onStore (act : StoreM α) : EvalM σ α := ExceptT.mk fun m =>
  let (r, store) := act.run m.store
  (.ok r, { m with store })

/-- Runs an operation on the store that may end in an evaluation error. -/
def onCall (act : CallM α) : EvalM σ α := ExceptT.mk fun m =>
  let (r, store) := act.run.run m.store
  (r, { m with store })

/-- The store as it is now. -/
def store : EvalM σ Store := onStore get

def ofExcept : Except EvalError α → EvalM σ α
  | .ok r    => return r
  | .error e => throw e

/-- Keeps the objects of a value alive for the rest of the operation in progress. -/
def hold (vs : List Value) : EvalM σ Unit := onStore (modify (·.hold (vs.flatMap Value.refs)))

/-- Runs an active binding once; any other value is itself. -/
def force (getters : Getters σ) : Value → EvalM σ Value
  | .active g => ExceptT.mk fun m =>
    let (v, heap, host) := (getters g).run (m.store.heap, m.host)
    (.ok v, { store := { m.store with heap }, host })
  | v => return v

/-- The value of a read site's name, with an active binding run; nothing if the name is unbound. -/
def read (getters : Getters σ) (c : CacheId) (a : ActivationId) : EvalM σ (Option Value) := do
  match ← onStore (Store.cachedRead c a) with
  | some v => some <$> force getters v
  | none   => return none

/-- The value of a read site's name; an unbound name is an error. -/
def readOrError (getters : Getters σ) (c : CacheId) (a : ActivationId) : EvalM σ Value := do
  match ← read getters c a with
  | some v => return v
  | none   =>
    let s ← store
    throw (.undefinedVariable (s.spell (s.cache c).name))

end EvalM

end ScopeCall
