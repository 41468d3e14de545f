import ScopeCall.Invalidation

/-!
# `ScopeCall.Linking` — how layouts are nested

A layout is linked to the layout of the scope that encloses it, and is registered there as a child.
Relinking a layout forgets the lookups that the old link could have carried.

## Contents
- **Slots.** A new slot may shadow a binding further out.
- **Links.** First linking, relinking, inserting a scope between two, and taking one out.
-/

namespace ScopeCall

namespace Store

/-! ## Slots -/

/-- The metadata of a new slot at position `i`. -/
def newSlotInfo (layout : Layout) (i : Nat) (n : Name) : StoreM SlotInfo := do
  let label := layout.label ++ "[" ++ toString i ++ "]"
  let stable ← if layout.kind.isSingleton then some <$> newStable label none else pure none
  let notModifiedNonLocally ← newGuard (label ++ " not modified non-locally")
  let noFanOut ← newGuard (label ++ " not fanned out")
  return {
    name := n, label, notModifiedNonLocally, noFanOut, stable
    mayFanOut := layout.kind.mayFanOut
    budget := layout.policy.budgetFor layout.kind }

/-- The index of the slot for a name, which is made if there is none yet. -/
def findOrAddSlot (l : LayoutId) (n : Name) : StoreM Nat := do
  let layout := (← get).layout l
  match layout.slotIndex? n with
  | some i => return i
  | none   =>
    let i := layout.slots.size
    let info ← newSlotInfo layout i n
    modify (·.modifyLayout l (·.addSlot info))
    modify (·.invalidateNames l [n])
    return i

/-! ## Links -/

/-- Whether a layout is linked to just this parent; a parent that has died is still linked to. -/
def isEnclosedBy (s : Store) (l : LayoutId) (parent : Option LayoutId) : Bool :=
  (s.layout l).enclosing = parent

/-- Sets the link to the parent, with a new guard. -/
def relink (l : LayoutId) (parent : Option LayoutId) : StoreM Unit := do
  let layout := (← get).layout l
  modify (·.invalidate layout.enclosingGuard)
  let guard ← newGuard (layout.label ++ " enclosing")
  modify (·.modifyLayout l (·.linkTo parent guard))

def addChild (s : Store) (parent child : LayoutId) : Store :=
  s.modifyLayout parent (·.addChild child)

def removeChild (s : Store) (parent child : LayoutId) : Store :=
  s.modifyLayout parent (·.removeChild child)

/-- Links a layout to its first parent. Linking it to the parent that it has is allowed and changes
    nothing; a layout linked to a parent that is alive cannot be linked to another. -/
def initializeEnclosing (l : LayoutId) (parent : Option LayoutId) : FaultM Unit := do
  let s ← get
  match s.parent l, parent with
  | none, none   => return
  | none, some p => do
    relink l (some p)
    modify (·.addChild p l)
  | actual, parent =>
    if actual = parent then return
    throw (.enclosingMismatch (s.layout l).label (parent.map fun p => (s.layout p).label)
      (actual.map fun a => (s.layout a).label))

/-- Links a layout to another parent, or to none. -/
def relinkTo (l : LayoutId) (parent : Option LayoutId) : StoreM Unit := do
  modify (·.invalidateAll l)
  let old := (← get).parent l
  relink l parent
  if let some old := old then modify (·.removeChild old l)
  if let some p := parent then modify (·.addChild p l)

/-- The parent of a layout, without which it cannot be moved. -/
def requireParent (l : LayoutId) : FaultM LayoutId := do
  let s ← get
  match s.parent l with
  | some p => return p
  | none   => throw (.noEnclosingLayout (s.layout l).label)

/-- Inserts a layout between another and its parent. Lookups that walked through the parent are
    recorded at the inserted layout from now on, so that a slot added to it later still reaches
    them. -/
def insertEnclosing (l inserted : LayoutId) : FaultM Unit := do
  let old ← requireParent l
  modify (·.invalidateAll inserted)
  modify fun s => s.invalidateNames l (s.layout inserted).identifiers
  let recorded := ((← get).layout old).recorded
  modify (·.modifyLayout inserted (·.inherit recorded))
  relink inserted (some old)
  relink l (some inserted)
  modify (·.addChild inserted l)
  modify (·.removeChild old l)
  modify (·.addChild old inserted)

/-- Takes the parent of a layout out of the chain. -/
def removeEnclosing (l : LayoutId) : FaultM Unit := do
  let old ← requireParent l
  let grandparent := (← get).parent old
  modify fun s => s.invalidateNames old (s.layout old).identifiers
  relink l grandparent
  relink old none
  modify (·.removeChild old l)
  if let some g := grandparent then
    modify (·.removeChild g old)
    modify (·.addChild g l)

end Store

end ScopeCall
