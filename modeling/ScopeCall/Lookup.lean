import ScopeCall.Scope

/-!
# `ScopeCall.Lookup` — finding the binding of a name

A name is looked up along the chain of activations. `Store.lookupDynamic` does just that.
`Store.resolve` walks once and leaves a result behind that stays usable, without walking again, for as
long as its guard is valid; `Store.cachedRead` is a read site that uses such results.

## Contents
- **The dynamic walk.**
- **Results.** When a result is valid, and what it says now.
- **The walk that is remembered.** It gives up where a result could not be shared by all activations
  of a layout: at a slot of a function, or where activations are not nested as their layouts are.
- **Read sites.**
-/

namespace ScopeCall

namespace Store

/-- A chain of distinct activations is at most as long as there are activations. -/
def chainBound (s : Store) : Nat := s.activations.size + 1

/-! ## The dynamic walk -/

/-- Follows a chain of activations; the first binding that is not empty wins. -/
def lookupFrom (s : Store) (n : Name) : Nat → Option ActivationId → Option Value
  | fuel + 1, some a =>
    match s.readName a n with
    | some v => some v
    | none   => s.lookupFrom n fuel (s.activation a).enclosing
  | _, _ => none

/-- The value of a name as seen from an activation, read afresh along the whole chain. -/
def lookupDynamic (s : Store) (a : ActivationId) (n : Name) : Option Value :=
  s.lookupFrom n s.chainBound (some a)

/-! ## Results -/

/-- Whether a result may be trusted. -/
def resultValid (s : Store) : LookupResult → Bool
  | .stable t g    => s.lookupValid g && s.stableValid t
  | .boundAt _ _ g => s.lookupValid g
  | .unbound g     => s.lookupValid g

/-- What a result says about its name right now. -/
inductive Resolved where
  | value (v : Value)
  | unbound
  /-- The result is stale, or its binding is empty. -/
  | noInformation
deriving DecidableEq, Repr, Inhabited

def Resolved.ofOption : Option Value → Resolved
  | some v => .value v
  | none   => .noInformation

/-- Reads through a result. -/
def readResult (s : Store) (r : LookupResult) : Resolved :=
  if s.resultValid r then
    match r with
    | .stable t _       => .ofOption (s.stable t).value
    | .boundAt a slot _ => .ofOption ((s.upgradeActivation a).bind fun a => s.read a slot)
    | .unbound _        => .unbound
  else
    .noInformation

/-! ## The walk that is remembered -/

/-- Where a walk ended. -/
inductive Finding where
  | stable (t : StableId)
  | boundAt (a : ActivationId) (slot : Nat)
  | unbound
deriving DecidableEq, Repr, Inhabited

/-- What one layout of the chain has to say. -/
inductive Stop where
  | found (f : Finding)
  /-- The binding cannot be summarized for all activations of the layout. -/
  | giveUp
  /-- The name is not bound here. -/
  | passOn
deriving DecidableEq, Repr, Inhabited

/-- Whether the walk for a name stops at a layout. -/
def stopAt (s : Store) (l : LayoutId) (n : Name) : Stop :=
  match (s.layout l).slotIndex? n with
  | none      => .passOn
  | some slot =>
    match (s.slot? l slot).bind (·.stable) with
    | some t => if (s.stable t).value.isSome then .found (.stable t) else .passOn
    | none   =>
      match s.singletonActivation l with
      | some a => .found (.boundAt a slot)
      | none   => .giveUp

/-- Walks from an activation. Answers where the walk ended, and the activations on the way. -/
def walk (s : Store) (n : Name) : Nat → ActivationId → Option (Finding × List ActivationId)
  | 0, _ => none
  | fuel + 1, a =>
    let l := s.layoutOf a
    match s.stopAt l n with
    | .found f => some (f, [a])
    | .giveUp  => none
    | .passOn  =>
      let next := (s.activation a).enclosing
      if s.isEnclosedBy l (next.map s.layoutOf) then
        match next with
        | none      => some (.unbound, [a])
        | some next => (s.walk n fuel next).map fun (f, path) => (f, a :: path)
      else
        none

def Finding.toResult (g : LookupId) : Finding → LookupResult
  | .stable t       => .stable t g
  | .boundAt a slot => .boundAt a slot g
  | .unbound        => .unbound g

/-- Remembers a result at the layout where its lookup started; a result that it replaces is
    invalidated. -/
def memoize (s : Store) (l : LayoutId) (n : Name) (r : LookupResult) : Store :=
  let replaced := ((s.layout l).memo? n).map (·.guard)
  (s.modifyLayout l (·.memoize n r)).invalidateEach replaced.toList

/-- Records a walk for a name at the layouts of the activations on its way. -/
def recordWalk (s : Store) (n : Name) (path : List ActivationId) : Store :=
  path.foldl (fun s b => s.modifyLayout (s.layoutOf b) (·.record n)) s

/-- Walks from an activation, and leaves the result behind. No result if the walk gave up. -/
def resolveAnew (a : ActivationId) (n : Name) : StoreM (Option LookupResult) := do
  let s ← get
  let start := s.layoutOf a
  match s.walk n s.chainBound a with
  | none           => return none
  | some (f, path) =>
    let g ← newLookup ("lookup " ++ n.debug ++ " from " ++ (s.layout start).label)
    let r := f.toResult g
    modify (·.recordWalk n path)
    modify (·.memoize start n r)
    return some r

/-- Resolves a name from an activation; the result remembered by the layout is used if it is still
    valid. -/
def resolve (a : ActivationId) (n : Name) : StoreM (Option LookupResult) := do
  let s ← get
  match (s.layout (s.layoutOf a)).memo? n with
  | some r => if s.resultValid r then return some r else resolveAnew a n
  | none   => resolveAnew a n

/-! ## Read sites -/

/-- What the result that a read site remembers says now, if it was found from this layout. -/
def remembered (s : Store) (c : CacheId) (l : LayoutId) : Resolved :=
  match (s.cache c).cached with
  | some (l', r) => if l' = l then s.readResult r else .noInformation
  | none         => .noInformation

/-- The value of a read site's name as seen from an activation; an active binding is not run. -/
def cachedRead (c : CacheId) (a : ActivationId) : StoreM (Option Value) := do
  let s ← get
  let l := s.layoutOf a
  let n := (s.cache c).name
  match s.remembered c l with
  | .value v       => return some v
  | .unbound       => return none
  | .noInformation =>
    match ← resolve a n with
    | none   => return (← get).lookupDynamic a n
    | some r =>
      let resolved := (← get).readResult r
      modify (·.modifyCache c fun cache => { cache with cached := some (l, r) })
      match resolved with
      | .value v       => return some v
      | .unbound       => return none
      | .noInformation => return (← get).lookupDynamic a n

end Store

end ScopeCall
