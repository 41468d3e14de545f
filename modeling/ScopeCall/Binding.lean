import ScopeCall.Liveness

/-!
# `ScopeCall.Binding` — tracking the value of a slot

While a slot is tracked, its layout keeps a stable value that describes what the slot holds. Each
change of the value replaces the stable value and uses up one unit of the slot's budget; a change
past the budget ends the tracking for good.

## Contents
- `Store.recordWrite` tracks a write or a removal, and tells whether an empty binding was filled.
- `Store.dropStable` ends the tracking.
- `Store.noteWrite` notes writes that come from elsewhere than the scope itself.
-/

namespace ScopeCall

namespace Store

/-- Puts a stable value for `v` in the place of `t`, or ends the tracking if the budget of the slot is
    used up. -/
def replaceStable (s : Store) (l : LayoutId) (i : Nat) (info : SlotInfo) (t : StableId)
    (v : Option Value) : Store :=
  let s := s.invalidateStable t
  if info.budget > 0 then
    (s.addStable info.label v).modifySlot l i (·.retrack ⟨s.stables.size⟩)
  else
    s.modifySlot l i (·.untrack)

/-- Tracks that a slot now holds `v`. Writing the same value again changes nothing. Answers whether
    a tracked binding went from empty to holding a value, which makes it visible to lookups that
    used to walk past it. -/
def recordWrite (l : LayoutId) (i : Nat) (v : Option Value) : StoreM Bool := do
  let s ← get
  let some info := s.slot? l i | return false
  let some t := info.stable | return false
  let current := (s.stable t).value
  if Value.unchanged current v then return false
  set (s.replaceStable l i info t v)
  return current.isNone && v.isSome

/-- Stops tracking a slot for good. -/
def dropStable (s : Store) (l : LayoutId) (i : Nat) : Store :=
  match s.slot? l i with
  | none => s
  | some info =>
    let s := s.modifySlot l i (·.giveUp)
    match info.stable with
    | none   => s
    | some t => s.invalidateStable t

/-- Notes a write to a slot that was made from a nested scope, or through an activation that is
    accessed irregularly. -/
def noteWrite (s : Store) (info : SlotInfo) (nonLocal irregular : Bool) : Store :=
  if nonLocal || irregular then s.invalidate info.notModifiedNonLocally else s

end Store

end ScopeCall
