import ScopeCall.Store

/-!
# `ScopeCall.Liveness` — which objects are alive

An object dies when the last strong reference to it goes away, and takes its own references with it.
So the objects alive are the largest set in which every member is held from outside or referred to by
a member: objects that refer to each other in a circle never die.

## Contents
- **The definition.** `Store.Live`.
- **Counting.** `Store.liveSet` computes the set: count the references to each object, then strike
  out objects without any, one by one, taking back the references they hold.
- **Weak references.** Reading the links that keep nothing alive.
-/

namespace ScopeCall

namespace Store

/-! ## The definition -/

/-- Every member is held from outside or referred to by a member. -/
def Supported (s : Store) (S : Ref → Prop) : Prop :=
  ∀ r, S r → r ∈ s.roots ∨ ∃ q, S q ∧ r ∈ s.refs q

/-- Membership in some supported set, hence in the largest. -/
def Live (s : Store) (r : Ref) : Prop := ∃ S, s.Supported S ∧ S r

/-! ## Counting -/

/-- The position of an object when the tables are laid end to end. -/
def position (s : Store) : Ref → Nat
  | .layout l     => l.index
  | .activation a => s.layouts.size + a.index
  | .callable c   => s.layouts.size + s.activations.size + c.index
  | .list l       => s.layouts.size + s.activations.size + s.callables.size + l.index
  | .group g      =>
    s.layouts.size + s.activations.size + s.callables.size + s.heap.lists.size + g.index
  | .stable t     =>
    s.layouts.size + s.activations.size + s.callables.size + s.heap.lists.size
      + s.heap.groups.size + t.index
  | .cache c      =>
    s.layouts.size + s.activations.size + s.callables.size + s.heap.lists.size
      + s.heap.groups.size + s.stables.size + c.index
  | .site i       =>
    s.layouts.size + s.activations.size + s.callables.size + s.heap.lists.size
      + s.heap.groups.size + s.stables.size + s.caches.size + i.index

/-- The references that each object holds, by position. -/
def outgoing (s : Store) : Array (List Ref) :=
  s.layouts.map Layout.refs ++ s.activations.map Activation.refs ++ s.callables.map Callable.refs
    ++ s.heap.lists.map (fun items => items.toList.flatMap Value.refs)
    ++ s.heap.groups.map (fun entries => entries.flatMap GroupEntry.refs)
    ++ s.stables.map StableValue.refs ++ s.caches.map LookupCache.refs ++ s.sites.map CallSite.refs

/-- Counts one more reference per position. -/
def tally (counts : Array Nat) (positions : List Nat) : Array Nat :=
  positions.foldl (fun counts i => counts.modify i (· + 1)) counts

/-- Takes back one reference per position; returns the positions that have none left. -/
def untally (counts : Array Nat) : List Nat → Array Nat × List Nat
  | []        => (counts, [])
  | i :: rest =>
    match counts[i]? with
    | none   => untally counts rest
    | some n =>
      let (counts, struck) := untally (counts.setIfInBounds i (n - 1)) rest
      (counts, if n = 1 then i :: struck else struck)

/-- Strikes out objects without references until none is left to strike; each object is struck at
    most once, so the number of objects is fuel enough. -/
def strike (out : Array (List Nat)) : Nat → List Nat → Array Nat → Array Nat
  | n + 1, i :: pending, counts =>
    let (counts, struck) := untally counts (out[i]?.getD [])
    strike out n (struck ++ pending) counts
  | _,     _,            counts => counts

/-- The number of references to each object that are left when everything dead is struck out. -/
structure LiveSet where
  counts : Array Nat

/-- The objects alive. -/
def liveSet (s : Store) : LiveSet :=
  let out := s.outgoing.map (·.map s.position)
  let zero := Array.replicate out.size 0
  let counts := out.foldl tally (tally zero (s.roots.map s.position))
  let unreferenced := (List.range out.size).filter fun i => counts[i]?.getD 0 = 0
  ⟨strike out out.size unreferenced counts⟩

/-- Whether an object is alive, given the set of those that are. -/
def LiveSet.contains (live : LiveSet) (s : Store) (r : Ref) : Bool :=
  live.counts[s.position r]?.getD 0 > 0

/-- Whether an object is alive; what is held from outside is, without counting. -/
def isLive (s : Store) (r : Ref) : Bool := s.roots.contains r || s.liveSet.contains s r

/-! ## Weak references -/

/-- The layout itself, if it is still alive. -/
def upgradeLayout (s : Store) (l : LayoutId) : Option LayoutId :=
  if s.isLive (.layout l) then some l else none

/-- The activation itself, if it is still alive. -/
def upgradeActivation (s : Store) (a : ActivationId) : Option ActivationId :=
  if s.isLive (.activation a) then some a else none

/-- The parent of a layout, if it is still alive. -/
def parent (s : Store) (l : LayoutId) : Option LayoutId :=
  (s.layout l).enclosing.bind s.upgradeLayout

/-- The registered children of a layout that are still alive, in order of registration. -/
def liveChildren (s : Store) (l : LayoutId) : List LayoutId :=
  match (s.layout l).children with
  | []       => []
  | children => let live := s.liveSet; children.filter fun c => live.contains s (.layout c)

/-- The live activation of a singleton layout. -/
def singletonActivation (s : Store) (l : LayoutId) : Option ActivationId :=
  (s.layout l).singleton.bind s.upgradeActivation

end Store

end ScopeCall
