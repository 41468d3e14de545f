import ScopeCall.Value

/-!
# `ScopeCall.Activation` — scopes at run time

An activation is one instance of a layout: a content per slot, and a link to the activation that
encloses it.

## Contents
- **Slot contents.** `SlotContent`: nothing, one value, or one value per context.
- **Activations.** Storage grows as slots are written: a slot past the end reads as empty.
-/

namespace ScopeCall

/-! ## Slot contents -/

/-- The value of a slot in each context; a context past the end sees nothing. -/
abbrev ContextValues := Array (Option Value)

namespace ContextValues

/-- What a context sees. -/
def read (vs : ContextValues) (context : Nat) : Option Value := vs[context]?.join

/-- Room for at least `size` contexts; new ones see nothing. -/
def grow (vs : ContextValues) (size : Nat) : ContextValues :=
  vs ++ Array.replicate (size - vs.size) none

/-- Sets what one context sees. -/
def write (vs : ContextValues) (context : Nat) (v : Option Value) : ContextValues :=
  (vs.grow (context + 1)).setIfInBounds context v

/-- Makes one context see nothing. -/
def clear (vs : ContextValues) (context : Nat) : ContextValues := vs.setIfInBounds context none

/-- Makes every context but the first see nothing. -/
def clearOthers (vs : ContextValues) : ContextValues :=
  vs.mapIdx fun i v => if i = 0 then v else none

end ContextValues

inductive SlotContent where
  | empty
  | value (v : Value)
  | fanOut (values : ContextValues)
deriving DecidableEq, Repr, Inhabited

namespace SlotContent

/-- What a context sees of a slot. -/
def readIn (context : Nat) : SlotContent → Option Value
  | .empty     => none
  | .value v   => some v
  | .fanOut vs => vs.read context

def isFanOut : SlotContent → Bool
  | .fanOut _ => true
  | _         => false

/-- Every value held, in any context. -/
def values : SlotContent → List Value
  | .empty     => []
  | .value v   => [v]
  | .fanOut vs => vs.toList.filterMap id

end SlotContent

/-! ## Activations -/

structure Activation where
  /-- The number of this activation, in order of creation. -/
  serial : Nat
  layout : LayoutId
  /-- How many calls deep the activation was made. -/
  depth : Nat
  enclosing : Option ActivationId
  contents : Array SlotContent := #[]
  /-- Whether the activation is reached by other means than nesting. -/
  irregular : Bool := false
deriving DecidableEq, Repr, Inhabited

namespace Activation

def content (a : Activation) (slot : Nat) : SlotContent := a.contents[slot]?.getD .empty

/-- Replaces the content of a slot, making room for it if need be. -/
def setContent (a : Activation) (slot : Nat) (c : SlotContent) : Activation :=
  let room := a.contents ++ Array.replicate (slot + 1 - a.contents.size) .empty
  { a with contents := room.setIfInBounds slot c }

end Activation

end ScopeCall
