import ScopeCall.Linking

/-!
# `ScopeCall.Scope` — operations on activations

Values are read and written through activations, so that what a layout remembers about a slot stays
in step with what the slot holds.

## Contents
- **Creation.** An activation links its layout on first use, and claims it if it admits only one.
- **Reading and writing.** By slot and by name, from the current context.
- **Moving scopes.** An activation and its layout move together.
-/

namespace ScopeCall

namespace Store

/-! ## Creation -/

/-- The greatest call depth that can be represented. -/
def depthLimit : Nat := UInt64.size - 1

/-- Makes `a` the one live activation of its layout. A layout whose previous activation died starts
    over with every slot empty. -/
def claimSingleton (l : LayoutId) (a : ActivationId) : StoreM Unit := do
  let layout := (← get).layout l
  modify (·.modifyLayout l (·.claim a))
  if layout.singleton.isSome then
    (List.range layout.slots.size).forM fun i => discard (recordWrite l i none)
    modify (·.invalidateAll l)

/-- Uses up the number for the next activation. -/
def takeSerial (s : Store) : Store := { s with nextSerial := s.nextSerial + 1 }

/-- An activation of a layout that has been linked already. A number is used up even if the layout
    admits no further activation. -/
def enter (l : LayoutId) (enclosing : Option ActivationId) (depth : Nat) : FaultM ActivationId := do
  let s ← get
  let layout := s.layout l
  modify takeSerial
  if layout.kind.isSingleton && (s.singletonActivation l).isSome then
    throw (.singletonTaken layout.label)
  let a ← newActivation { serial := s.nextSerial, layout := l, depth, enclosing }
  if layout.kind.isSingleton then claimSingleton l a
  return a

/-- A new activation of a layout, nested in `enclosing`, made by a call `depth` calls deep. -/
def newScope (l : LayoutId) (enclosing : Option ActivationId) (depth : Nat) :
    FaultM ActivationId := do
  let s ← get
  let parent := enclosing.map s.layoutOf
  unless s.isEnclosedBy l parent do initializeEnclosing l parent
  enter l enclosing depth

/-! ## Reading and writing -/

/-- The content of a slot. -/
def content (s : Store) (a : ActivationId) (slot : Nat) : SlotContent :=
  (s.activation a).content slot

def setContent (s : Store) (a : ActivationId) (slot : Nat) (c : SlotContent) : Store :=
  s.modifyActivation a (·.setContent slot c)

/-- What a context sees of a slot. -/
def readIn (s : Store) (a : ActivationId) (slot context : Nat) : Option Value :=
  (s.content a slot).readIn context

/-- What the current context sees of a slot. -/
def read (s : Store) (a : ActivationId) (slot : Nat) : Option Value :=
  s.readIn a slot s.contexts.current

/-- The index of the slot for a name in an activation. -/
def slotOf? (s : Store) (a : ActivationId) (n : Name) : Option Nat :=
  (s.layout (s.layoutOf a)).slotIndex? n

/-- What the current context sees of a name in an activation, enclosing scopes apart. -/
def readName (s : Store) (a : ActivationId) (n : Name) : Option Value :=
  (s.slotOf? a n).bind (s.read a)

/-- The metadata of a slot that has to exist. -/
def requireSlot (a : ActivationId) (slot : Nat) : FaultM SlotInfo := do
  let s ← get
  match s.slot? (s.layoutOf a) slot with
  | some info => return info
  | none      => throw (.unknownSlot (s.layout (s.layoutOf a)).label slot)

/-- Refuses a layout that may have many activations. -/
def requireSingleton (a : ActivationId) : FaultM Unit := do
  let layout := (← get).layout ((← get).layoutOf a)
  unless layout.kind.isSingleton do throw (.notSingleton layout.label)

/-- Stores a value in a slot. A slot with a value per context changes for the current context only,
    and is not tracked; any other write is tracked, and answers whether an empty binding was
    filled. -/
def store (a : ActivationId) (slot : Nat) (v : Value) : StoreM Bool := do
  let s ← get
  match s.content a slot with
  | .fanOut vs =>
    modify (·.setContent a slot (.fanOut (vs.write s.contexts.current (some v))))
    return false
  | _ =>
    let filled ← recordWrite (s.layoutOf a) slot (some v)
    modify (·.setContent a slot (.value v))
    return filled

/-- Writes a slot. `nonLocal` marks a write made from a scope nested inside this one. -/
def write (a : ActivationId) (slot : Nat) (v : Value) (nonLocal : Bool) : FaultM Unit := do
  let info ← requireSlot a slot
  let l := (← get).layoutOf a
  if v.isActive then modify fun s => s.invalidate (s.layout l).noActiveBinding
  let filled ← store a slot v
  if filled then modify (·.invalidateNames l [info.name])
  modify fun s => s.noteWrite info nonLocal (s.activation a).irregular

/-- Binds a name in an activation, making its slot if need be. -/
def bindName (a : ActivationId) (n : Name) (v : Value) (nonLocal : Bool) : FaultM Nat := do
  let slot ← findOrAddSlot ((← get).layoutOf a) n
  write a slot v nonLocal
  return slot

/-- Binds a name from the scope itself. -/
def define (a : ActivationId) (n : Name) (v : Value) : FaultM Nat := bindName a n v false

/-- Binds a name from a scope nested inside. -/
def assignNonLocal (a : ActivationId) (n : Name) (v : Value) : FaultM Nat := bindName a n v true

/-- Binds a name to a computation that is run on every read. -/
def setActiveBinding (a : ActivationId) (n : Name) (g : GetterId) : FaultM Nat :=
  define a n (.active g)

/-- Empties a slot, for the current context only if it has a value per context. Answers whether
    there was a value. -/
def empty (a : ActivationId) (slot : Nat) : StoreM Bool := do
  let s ← get
  let had ← match s.content a slot with
    | .empty     => pure false
    | .value _   => do
      modify (·.setContent a slot .empty)
      pure true
    | .fanOut vs => do
      modify (·.setContent a slot (.fanOut (vs.clear s.contexts.current)))
      pure (vs.read s.contexts.current).isSome
  let _ ← recordWrite (s.layoutOf a) slot none
  return had

/-- Removes the binding of a name. Answers whether there was one. -/
def remove (a : ActivationId) (n : Name) : StoreM Bool := do
  let s ← get
  let l := s.layoutOf a
  let some slot := s.slotOf? a n | return false
  let some info := s.slot? l slot | return false
  let had ← empty a slot
  modify fun s => s.noteWrite info false (s.activation a).irregular
  modify (·.invalidateNames l [n])
  return had

/-- Marks an activation as reached by other means than nesting. -/
def markIrregular (s : Store) (a : ActivationId) : Store :=
  s.modifyActivation a fun act => { act with irregular := true }

/-! ## Moving scopes -/

def setEnclosingLink (s : Store) (a : ActivationId) (parent : Option ActivationId) : Store :=
  s.modifyActivation a fun act => { act with enclosing := parent }

/-- Moves an activation of a singleton layout, and the layout, to another parent. -/
def setEnclosing (a : ActivationId) (parent : Option ActivationId) : FaultM Unit := do
  requireSingleton a
  let s ← get
  relinkTo (s.layoutOf a) (parent.map s.layoutOf)
  modify (·.setEnclosingLink a parent)

/-- Inserts an activation between another and its parent. -/
def attach (a inserted : ActivationId) : FaultM Unit := do
  let s ← get
  insertEnclosing (s.layoutOf a) (s.layoutOf inserted)
  let old := ((← get).activation a).enclosing
  modify (·.setEnclosingLink a (some inserted))
  modify (·.setEnclosingLink inserted old)

/-- Takes the parent of an activation out of the chain, and answers it. -/
def detachEnclosing (a : ActivationId) : FaultM (Option ActivationId) := do
  removeEnclosing ((← get).layoutOf a)
  let old := ((← get).activation a).enclosing
  modify (·.setEnclosingLink a none)
  match old with
  | none => return none
  | some o =>
    let grandparent := ((← get).activation o).enclosing
    modify (·.setEnclosingLink o none)
    modify (·.setEnclosingLink a grandparent)
    return some o

end Store

end ScopeCall
