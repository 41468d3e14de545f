import ScopeCall.Invocation

/-!
# `ScopeCall.Matching` — binding supplied arguments to formals

Matching looks at the names of the supplied arguments only, never at their values, so that its
outcome can be computed once per shape of call. Placing the values of one call is `bind`.

## Contents
- **The standard rules.** Arguments supplied by name go to the formal of that name; positional ones
  fill the formals that are left before the collecting one, in order; whatever is left over goes to
  the collecting formal, or is an error; formals without an argument take their default.
- **Placing values.** `MatchedArguments.bind`.
- **Policies.** `Store.runMatcher`.
-/

namespace ScopeCall

/-! ## The standard rules -/

namespace Matching

/-- How far a match has come: the source found for each formal, and which arguments are placed. -/
structure Progress where
  sources : Array (Option FormalSource)
  used : Array Bool
deriving DecidableEq, Repr, Inhabited

namespace Progress

def start (formals supplied : Nat) : Progress :=
  ⟨Array.replicate formals none, Array.replicate supplied false⟩

def filled (p : Progress) (formal : Nat) : Bool := (p.sources[formal]?.join).isSome

/-- Places the argument at position `i` at a formal. -/
def place (p : Progress) (formal i : Nat) : Progress :=
  ⟨p.sources.setIfInBounds formal (some (.supplied i)), p.used.setIfInBounds i true⟩

/-- The first formal from `next` on that is not filled, or the end `stop`. -/
def nextOpen (p : Progress) (next stop : Nat) : Nat :=
  ((List.range' next (stop - next)).find? (!p.filled ·)).getD stop

end Progress

/-- The last formal of a name; the collecting formal has none. -/
def formalNamed? (formals : List Formal) (n : Name) : Option Nat :=
  ((formals.zipIdx.filter fun (f, _) => !f.isVariadic && f.name == n).getLast?).map (·.2)

/-- Places the arguments supplied by name, from position `i` on. -/
def placeNamed (spell : Name → String) (formals : List Formal) :
    Nat → SuppliedNames → Progress → Except EvalError Progress
  | _, [], p => .ok p
  | i, none :: rest, p => placeNamed spell formals (i + 1) rest p
  | i, some n :: rest, p =>
    match formalNamed? formals n with
    | none   => placeNamed spell formals (i + 1) rest p
    | some f =>
      if p.filled f then .error (.duplicateArgument (spell n))
      else placeNamed spell formals (i + 1) rest (p.place f i)

/-- Places the positional arguments, from position `i` on, at the open formals from `next` on and
    before `stop`. -/
def placePositional (stop : Nat) : Nat → SuppliedNames → Nat → Progress → Progress
  | _, [], _, p => p
  | i, some _ :: rest, next, p => placePositional stop (i + 1) rest next p
  | i, none :: rest, next, p =>
    let f := p.nextOpen next stop
    if f = stop then p else placePositional stop (i + 1) rest (f + 1) (p.place f i)

/-- The positions of the arguments that are not placed. -/
def leftovers (p : Progress) : List Nat :=
  (List.range p.used.size).filter fun i => p.used[i]?.getD false = false

/-- The source of a formal that got no argument. -/
def unsupplied (f : Formal) : FormalSource := if f.default?.isSome then .defaulted else .missing

/-- Matches the names of the supplied arguments against the formals of the function `callee`. -/
def run (spell : Name → String) (callee : String) (formals : List Formal)
    (supplied : SuppliedNames) (allowReorder : Bool) : Except EvalError MatchedArguments := do
  if supplied.contains (some .empty) then throw .zeroLengthName
  let named ← placeNamed spell formals 0 supplied (.start formals.length supplied.length)
  let collecting := formals.findIdx? Formal.isVariadic
  let p := placePositional (collecting.getD formals.length) 0 supplied 0 named
  let left := leftovers p
  let sources ← match collecting, left with
    | some f, _    => pure (p.sources.setIfInBounds f (some (.collected left)))
    | none, []     => pure p.sources
    | none, i :: _ =>
      match supplied[i]?.join with
      | some n => throw (.unusedArgument (spell n))
      | none   => throw (.tooManyArguments callee formals.length supplied.length)
  return {
    sources := (sources.toList.zip formals).map fun (source, f) => source.getD (unsupplied f)
    allowsReorder := allowReorder }

end Matching

/-! ## Placing values -/

namespace MatchedArguments

/-- The value of one formal. A position that was not supplied gives no value. -/
def bindFormal (names : SuppliedNames) (values : List Value) (f : Formal) :
    FormalSource → StateM Heap (Option Value)
  | .supplied i   => return values[i]?
  | .collected is => do
    let entries := is.filterMap fun i => values[i]?.map fun v => ⟨names[i]?.join, v⟩
    return some (.group (← Heap.newGroup entries))
  | .defaulted    => return f.default?
  | .missing      => return none

/-- The values of one call: an entry per formal. -/
def bind (m : MatchedArguments) (formals : List Formal) (names : SuppliedNames)
    (values : List Value) : StateM Heap (List (Option Value)) :=
  (formals.zip m.sources).mapM fun (f, source) => bindFormal names values f source

end MatchedArguments

/-! ## Policies -/

namespace Store

/-- Matches by the standard rules. -/
def matchStandard (s : Store) (c : CallableId) (supplied : SuppliedNames) (allowReorder : Bool) :
    Except EvalError MatchedArguments :=
  Matching.run s.spell (s.callable c).label (s.callable c).formals supplied allowReorder

/-- Matches by the policy of a call site. -/
def runMatcher (m : Matcher) (c : CallableId) (supplied : SuppliedNames) (source : String)
    (allowReorder : Bool) : CallM MatchedArguments := do
  match m with
  | .standard         => liftExcept ((← get).matchStandard c supplied allowReorder)
  | .recording        =>
    let s ← get
    let entry := ⟨(s.callable c).label, supplied.map (·.map s.spell), source, allowReorder⟩
    modify fun s => { s with matchLog := s.matchLog ++ [entry] }
    liftExcept ((← get).matchStandard c supplied allowReorder)
  | .fixed answer     => return answer
  | .refusing message => throw (.custom message)
where
  liftExcept {α : Type} : Except EvalError α → CallM α
    | .ok r    => return r
    | .error e => throw e

end Store

end ScopeCall
