import ScopeCall.Value

/-!
# `ScopeCall.Layout` — shapes of scopes, and what is remembered about them

A layout says which names a scope has slots for; every activation of one function shares that
function's layout. It also carries all that lets a lookup be remembered: guards, the stable value of
each slot, the names looked up through it, and the results of the lookups that started at it.

## Contents
- **Guards and stable values.** One-way validity flags, and values certified by one.
- **Lookup results.** What a finished walk found.
- **Kinds and policies.** How often a binding may change before its value stops being remembered.
- **Slots and layouts.** `SlotInfo`, `Layout`.
-/

namespace ScopeCall

/-! ## Guards and stable values -/

/-- A one-way flag: valid when made, invalidated at most once, never valid again. -/
structure Guard where
  label : String
  valid : Bool
deriving DecidableEq, Repr, Inhabited

/-- The guard after it has been invalidated. -/
def Guard.fallen (g : Guard) : Guard := { g with valid := false }

/-- The value of a binding together with the guard that certifies it; no value while the binding is
    empty. -/
structure StableValue where
  value : Option Value
  guard : Guard
deriving DecidableEq, Repr, Inhabited

/-- A guard as the embedding program refers to it: one of its own, of a layout or of a slot, that of a
    stable value, or that of a finished lookup. -/
inductive GuardRef where
  | plain (g : GuardId)
  | stable (t : StableId)
  | lookup (r : LookupId)
deriving DecidableEq, Repr, Inhabited

/-! ## Lookup results -/

/-- What a finished walk from a layout found for a name; trusted while its guard is valid. -/
inductive LookupResult where
  /-- The binding is tracked and holds a value. -/
  | stable (stable : StableId) (guard : LookupId)
  /-- The binding is in a singleton activation, and has to be read there each time. -/
  | boundAt (activation : ActivationId) (slot : Nat) (guard : LookupId)
  /-- Nothing on the chain binds the name. -/
  | unbound (guard : LookupId)
deriving DecidableEq, Repr, Inhabited

/-- The guard of the walk itself. -/
def LookupResult.guard : LookupResult → LookupId
  | .stable _ g | .boundAt _ _ g | .unbound g => g

/-! ## Kinds and policies -/

inductive LayoutKind where
  /-- Shared by every activation of one function. -/
  | function
  /-- A module: one activation, which may hold a value per context. -/
  | singleton
  /-- The top level: a singleton whose bindings are given up sooner. -/
  | topLevel
  /-- A scope made while running: one activation, never a value per context. -/
  | fresh
deriving DecidableEq, Repr, Inhabited

namespace LayoutKind

/-- Layouts with at most one live activation track the values of their slots. -/
def isSingleton : LayoutKind → Bool
  | .function => false
  | _         => true

/-- Whether slots of this kind of layout may hold a value per context. -/
def mayFanOut : LayoutKind → Bool
  | .singleton | .topLevel => true
  | _ => false

def name : LayoutKind → String
  | .function  => "Function"
  | .singleton => "Singleton"
  | .topLevel  => "TopLevel"
  | .fresh     => "Fresh"

end LayoutKind

/-- How many changes of its value a tracked binding absorbs before it is given up. -/
structure BindingPolicy where
  invalidationBudget : Nat := 2
  topLevelBudget : Nat := 1
deriving DecidableEq, Repr, Inhabited

def BindingPolicy.budgetFor (p : BindingPolicy) : LayoutKind → Nat
  | .topLevel => p.topLevelBudget
  | _         => p.invalidationBudget

/-! ## Slots and layouts -/

/-- What is known about one binding of a layout, for all activations of the layout together. -/
structure SlotInfo where
  name : Name
  label : String
  /-- Valid until the binding is written from a nested scope, or through an activation that is
      accessed irregularly. -/
  notModifiedNonLocally : GuardId
  /-- Valid until the binding is converted to a value per context. -/
  noFanOut : GuardId
  mayFanOut : Bool
  /-- The current stable value, while the binding is tracked. -/
  stable : Option StableId
  /-- How many more changes the binding absorbs before it is given up. -/
  budget : Nat
deriving DecidableEq, Repr, Inhabited

namespace SlotInfo

/-- The binding after a change that its budget absorbed, described by a new stable value. -/
def retrack (info : SlotInfo) (t : StableId) : SlotInfo :=
  { info with stable := some t, budget := info.budget - 1 }

/-- The binding after a change that its budget did not absorb. -/
def untrack (info : SlotInfo) : SlotInfo := { info with stable := none }

/-- The binding given up for good, whatever its budget. -/
def giveUp (info : SlotInfo) : SlotInfo := { info with stable := none, budget := 0 }

end SlotInfo

/-- The shape of a scope. The links to the parent, the children and the activation of a singleton
    do not keep what they point to alive. -/
structure Layout where
  label : String
  kind : LayoutKind
  policy : BindingPolicy
  slots : Array SlotInfo := #[]
  /-- Valid until some slot holds an active binding. -/
  noActiveBinding : GuardId
  /-- The activation that last claimed this layout, if it is a singleton. -/
  singleton : Option ActivationId := none
  enclosing : Option LayoutId := none
  /-- Valid until the layout is linked to another parent. -/
  enclosingGuard : GuardId
  children : List LayoutId := []
  /-- The names that a lookup has walked through this layout for. -/
  recorded : List Name := []
  /-- The results of the lookups that started at this layout. -/
  memos : List (Name × LookupResult) := []
deriving DecidableEq, Repr, Inhabited

namespace Layout

/-- The index of the slot for a name. -/
def slotIndex? (l : Layout) (n : Name) : Option Nat := l.slots.findIdx? (·.name == n)

/-- The names that have a slot, in slot order. -/
def identifiers (l : Layout) : List Name := l.slots.toList.map (·.name)

def addSlot (l : Layout) (info : SlotInfo) : Layout := { l with slots := l.slots.push info }

def modifySlot (l : Layout) (i : Nat) (f : SlotInfo → SlotInfo) : Layout :=
  { l with slots := l.slots.modify i f }

/-- Makes an activation the one of this layout. -/
def claim (l : Layout) (a : ActivationId) : Layout := { l with singleton := some a }

/-- The remembered result of a lookup that started here. -/
def memo? (l : Layout) (n : Name) : Option LookupResult := l.memos.lookup n

def hasRecorded (l : Layout) (n : Name) : Bool := l.recorded.contains n

/-- Records that a lookup of `n` walked through this layout. -/
def record (l : Layout) (n : Name) : Layout :=
  if l.hasRecorded n then l else { l with recorded := l.recorded ++ [n] }

/-- Forgets that any of `names` was looked up through this layout, and the results for them. -/
def forget (l : Layout) (names : List Name) : Layout :=
  { l with
    recorded := l.recorded.filter (!names.contains ·)
    memos := l.memos.filter (fun m => !names.contains m.1) }

/-- Remembers a result, in place of an earlier one for the same name. -/
def memoize (l : Layout) (n : Name) (r : LookupResult) : Layout :=
  { l.record n with memos := l.memos.filter (·.1 ≠ n) ++ [(n, r)] }

/-- Takes over what was looked up through another layout. -/
def inherit (l : Layout) (names : List Name) : Layout := { l with recorded := names }

/-- Links the layout to a parent, or to none, with a new guard. -/
def linkTo (l : Layout) (parent : Option LayoutId) (guard : GuardId) : Layout :=
  { l with enclosing := parent, enclosingGuard := guard }

/-- Registers a child once. -/
def addChild (l : Layout) (child : LayoutId) : Layout :=
  if l.children.contains child then l else { l with children := l.children ++ [child] }

def removeChild (l : Layout) (child : LayoutId) : Layout :=
  { l with children := l.children.filter (· ≠ child) }

end Layout

end ScopeCall
