import ScopeCall.Context

/-!
# `ScopeCall.FanOut` — one value per context

A slot of a singleton activation can be converted to hold one value per context. The conversion is
final: the slot is not tracked any more, and every later read and write goes to the entry of the
current context.

## Contents
- `Store.writeInContext` converts on the first write outside the first context.
- `Store.fanOutSlot`, `Store.fanOutAll` prepare slots for a list of contexts.
- `Store.cleanFanOut` drops what contexts hold.
-/

namespace ScopeCall

namespace Store

/-- Whether a slot has been converted. -/
def isFannedOut (s : Store) (a : ActivationId) (slot : Nat) : Bool := (s.content a slot).isFanOut

/-- Ends all that is remembered about a slot which is about to hold a value per context. -/
def giveUpSharing (s : Store) (l : LayoutId) (slot : Nat) (info : SlotInfo) : Store :=
  ((s.invalidate info.notModifiedNonLocally).dropStable l slot).invalidate info.noFanOut

/-- Writes a slot for the current context only. What the slot held before stays visible to the first
    context. -/
def writeInContext (a : ActivationId) (slot : Nat) (v : Value) : FaultM Unit := do
  let info ← requireSlot a slot
  let s ← get
  let context := s.contexts.current
  let l := s.layoutOf a
  if context = primordial then
    write a slot v false
  else if !info.mayFanOut then
    throw (.notSingleton (s.layout l).label)
  else
    match s.content a slot with
    | .fanOut vs => modify (·.setContent a slot (.fanOut (vs.write context (some v))))
    | c =>
      modify (·.giveUpSharing l slot info)
      let room : ContextValues := Array.replicate (s.contextRoom context) none
      let vs := (room.write primordial (c.readIn primordial)).write context (some v)
      modify (·.setContent a slot (.fanOut vs))

/-- Gives each listed context a copy of a value of its own. -/
def replicateInto (v : Option Value) : ContextValues → List Nat → StateM Heap ContextValues
  | vs, []               => return vs
  | vs, context :: rest  => do
    let copy ← v.mapM Heap.copyForContext
    replicateInto v (vs.write context copy) rest

/-- The entries of a slot that is converted, or extended to more contexts. With `replicate`, a first
    conversion shows the value to every context (as copies of its own if `copied`), and an extension
    shows the first context's value to the listed ones. -/
def fannedValues (c : SlotContent) (v : Option Value) (contexts : List Nat) (room : Nat)
    (replicate copied : Bool) : StateM Heap ContextValues :=
  match c with
  | .fanOut vs =>
    let vs := vs.grow room
    if replicate then replicateInto v vs contexts else return vs
  | _ =>
    let vs : ContextValues := Array.replicate room none
    if replicate then
      if copied then replicateInto v vs (List.range room) else return Array.replicate room v
    else
      return vs.write primordial v

/-- Prepares a slot for a list of contexts. With `replicate` they start with the current value,
    without it they start empty. A tracked binding whose value may be shared is left alone when
    replicated. Answers whether the slot was converted or extended. -/
def fanOutSlot (a : ActivationId) (slot : Nat) (contexts : List Nat) (replicate : Bool) :
    FaultM Bool := do
  requireSingleton a
  let info ← requireSlot a slot
  let s ← get
  let c := s.content a slot
  let v := c.readIn primordial
  let tracked := info.stable.map fun t => (s.stable t).value
  let copied := v.any Value.isContextUnsafe || tracked.join.any Value.isContextUnsafe
  if !info.mayFanOut || (tracked.isSome && !copied && replicate) then
    return false
  modify (·.giveUpSharing (s.layoutOf a) slot info)
  let room := s.contextRoom (contexts.foldl max primordial)
  let vs ← (onHeap (fannedValues c v contexts room replicate copied) : StoreM ContextValues)
  modify (·.setContent a slot (.fanOut vs))
  return true

/-- Prepares every slot of an activation; answers how many were converted or extended. -/
def fanOutAll (a : ActivationId) (contexts : List Nat) (replicate : Bool) : FaultM Nat := do
  requireSingleton a
  let s ← get
  let slots := List.range (s.layout (s.layoutOf a)).slots.size
  let changed ← slots.mapM fun slot => fanOutSlot a slot contexts replicate
  return changed.countP id

/-- Drops the values of some contexts, or of all but the first. -/
def SlotContent.clean (contexts : Option (List Nat)) : SlotContent → SlotContent
  | .fanOut vs =>
    match contexts with
    | some cs => .fanOut (cs.foldl ContextValues.clear vs)
    | none    => .fanOut vs.clearOthers
  | c => c

/-- Drops what contexts hold in the slots of an activation: those listed, or all but the first. -/
def cleanFanOut (s : Store) (a : ActivationId) (contexts : Option (List Nat)) : Store :=
  s.modifyActivation a fun act =>
    { act with contents := act.contents.map (SlotContent.clean contexts) }

end Store

end ScopeCall
