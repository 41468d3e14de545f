import ScopeCall.Binding

/-!
# `ScopeCall.Invalidation` — forgetting lookups that a change of scope makes wrong

Every layout records the names that were looked up through it. A change to a scope can only matter
to lookups that are recorded there, and to layouts nested in it along which the record continues: the
sweep starts at the changed layout, and goes on to the live children of each layout where it found
something recorded.

## Contents
- **One layout.** `Layout.forgetNames` and `Layout.forgetAll`.
- **The sweep.** `Store.sweep` ends also when layouts are registered as children in a circle: going on
  from a layout takes something out of its record, so `Store.sweepBound` is fuel enough.
- `Store.invalidateNames`, `Store.invalidateAll`.
-/

namespace ScopeCall

/-! ## One layout -/

/-- What a sweep does at one layout. -/
structure Visit where
  layout : Layout
  /-- The guards of the results that are forgotten. -/
  dropped : List LookupId
  /-- Whether the sweep goes on to the children. -/
  descend : Bool

/-- Forgets `names`, if a lookup of any of them is recorded. -/
def Layout.forgetNames (names : List Name) (l : Layout) : Visit :=
  if names.any l.hasRecorded then
    { layout := l.forget names
      dropped := (l.memos.filter (fun m => names.contains m.1)).map (·.2.guard)
      descend := true }
  else
    { layout := l, dropped := [], descend := false }

/-- Forgets everything; goes on if anything was recorded. -/
def Layout.forgetAll (l : Layout) : Visit :=
  { layout := { l with recorded := [], memos := [] }
    dropped := l.memos.map (·.2.guard)
    descend := !l.recorded.isEmpty }

namespace Store

/-! ## The sweep -/

/-- Visits the pending layouts, the latest first, and then those that they lead to. A pending layout
    is kept alive until it has been visited. -/
def sweep (visit : Layout → Visit) : Nat → List LayoutId → Store → Store
  | n + 1, l :: pending, s =>
    let v := visit (s.layout l)
    let s := (s.invalidateEach v.dropped).modifyLayout l fun _ => v.layout
    if v.descend then
      let children := (s.hold ((l :: pending).map Ref.layout)).liveChildren l
      sweep visit n (children.reverse ++ pending) s
    else
      sweep visit n pending s
  | _, _, s => s

/-- A bound on the visits of a sweep that starts at one layout: each visit that goes on takes
    something out of a record, and adds at most all registered children to the pending layouts. -/
def sweepBound (s : Store) : Nat :=
  let recorded := s.layouts.foldl (fun n l => n + l.recorded.length) 0
  let children := s.layouts.foldl (fun n l => n + l.children.length) 0
  recorded * (1 + children) + 2

/-- Forgets the lookups of `names` that walked through a layout, there and in the layouts nested in
    it. -/
def invalidateNames (s : Store) (l : LayoutId) (names : List Name) : Store :=
  sweep (Layout.forgetNames names) s.sweepBound [l] s

/-- Forgets every lookup that started at a layout and, if anything was looked up through it, also in
    the layouts nested in it. -/
def invalidateAll (s : Store) (l : LayoutId) : Store :=
  sweep Layout.forgetAll s.sweepBound [l] s

end Store

end ScopeCall
