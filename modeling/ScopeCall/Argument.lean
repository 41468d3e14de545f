import ScopeCall.Evaluation

/-!
# `ScopeCall.Argument` — the supplied arguments of a call expression

The arguments are fixed where the call is written: constants, reads of names, and forwards of the
leftover arguments bound in the caller's scope. Forwards make the shape of the call depend on the
caller; the names with every forward spliced in are the *signature* of one execution.

## Contents
- **Names.** `Arguments.staticNames` as written, `Arguments.flattenedNames` with forwards spliced in.
- **Groups.** What the forwards splice in.
- **Values.** `Arguments.evaluate`, aligned with `Arguments.flattenedNames`.
-/

namespace ScopeCall

/-- The arguments of one call expression. -/
abbrev Arguments := List ArgSpec

namespace Arguments

/-! ## Names -/

/-- The names of the arguments as written, forwards left out. -/
def staticNames (args : Arguments) : SuppliedNames :=
  (args.filter (!·.isForward)).map (·.name)

def forwardsVariadic (args : Arguments) : Bool := args.any (·.isForward)

/-- Refuses an argument written with the empty name. -/
def checkNames (args : Arguments) : Except EvalError Unit :=
  if args.staticNames.contains (some .empty) then .error .zeroLengthName else .ok ()

/-- The names of the arguments, with a group spliced in for each forward; a forward past the last
    group adds nothing. -/
def flattenedNames : Arguments → List (List GroupEntry) → SuppliedNames
  | [], _ => []
  | spec :: rest, groups =>
    if spec.isForward then
      match groups with
      | []              => flattenedNames rest []
      | group :: groups => group.map (·.name) ++ flattenedNames rest groups
    else
      spec.name :: flattenedNames rest groups

/-! ## Groups -/

/-- The leftover arguments bound in the caller's scope, once per forward. -/
def readGroups (args : Arguments) (s : Store) (caller : ActivationId) :
    Except EvalError (List GroupId) :=
  if args.forwardsVariadic then
    match (s.lookupDynamic caller .variadic).bind Value.asGroup? with
    | some g => .ok ((args.filter (·.isForward)).map fun _ => g)
    | none   => .error .variadicOutOfContext
  else
    .ok []

/-- The entries of several groups. -/
def entriesOf (s : Store) (groups : List GroupId) : List (List GroupEntry) :=
  groups.map s.heap.entries

/-! ## Values -/

/-- The values of the arguments, in order, with a group spliced in for each forward. -/
def evaluate {σ : Type} (getters : Getters σ) (caller : ActivationId) :
    Arguments → List (List GroupEntry) → EvalM σ (List Value)
  | [], _ => return []
  | spec :: rest, groups =>
    match spec.expr, groups with
    | .const v, groups => do
      EvalM.hold [v]
      return v :: (← evaluate getters caller rest groups)
    | .read c, groups => do
      let v ← EvalM.readOrError getters c caller
      EvalM.hold [v]
      return v :: (← evaluate getters caller rest groups)
    | .forward, [] => evaluate getters caller rest []
    | .forward, group :: groups => do
      let vs := group.map (·.value)
      EvalM.hold vs
      return vs ++ (← evaluate getters caller rest groups)

end Arguments

end ScopeCall
