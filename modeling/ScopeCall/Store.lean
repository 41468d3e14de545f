import ScopeCall.Error
import ScopeCall.Reference

/-!
# `ScopeCall.Store` — all objects, by identity

One value holds every object of a running program. Objects are only ever added: an identity is never
reused, and an object that nothing refers to any more simply stays where it is, out of reach. What is
alive is read off the references (`ScopeCall.Liveness`).

## Contents
- **The store.** Tables of objects, the contexts, and the references held from outside.
- **Reading and changing.** An identity that was never handed out reads as an empty object, and a
  change to it has no effect.
- **Adding.** One `new…` operation per table.
- **Guards.** Reading and invalidating.
- **References from outside.** `hold` for the operation in progress, `acquire` and `release` for
  handles that the embedding program keeps.
-/

namespace ScopeCall

/-! ## The store -/

/-- Execution contexts: how many indices have been handed out, and which one is evaluating. -/
structure ContextTable where
  count : Nat := 1
  current : Nat := 0
deriving DecidableEq, Repr, Inhabited

structure Store where
  interner : Interner := .new
  heap : Heap := {}
  /-- The guards of layouts and slots, and those that the embedding program makes. -/
  guards : Array Guard := #[]
  stables : Array StableValue := #[]
  /-- The guards of finished lookups. -/
  lookups : Array Guard := #[]
  layouts : Array Layout := #[]
  activations : Array Activation := #[]
  /-- The number for the next activation, whether or not it comes to be. -/
  nextSerial : Nat := 1
  callables : Array Callable := #[]
  targets : Array CallTarget := #[]
  /-- The guards of demands for a caller. -/
  demands : Array Guard := #[]
  caches : Array LookupCache := #[]
  sites : Array CallSite := #[]
  contexts : ContextTable := {}
  /-- References held by the operations in progress, latest first. -/
  stack : List Ref := []
  /-- References held by the embedding program, with repetition. -/
  handles : List Ref := []
  matchLog : List MatchRecord := []
deriving DecidableEq, Repr, Inhabited

/-- An operation on the store that always succeeds. -/
abbrev StoreM := StateM Store

/-- An operation on the store that may end in a fault; what it did before the fault stays done. -/
abbrev FaultM := ExceptT Fault StoreM

namespace Store

/-- A store with no objects, in which `names` are interned. -/
def new (names : List String) : Store := { interner := (Interner.new.internAll names).2 }

/-! ## Reading and changing -/

def guard (s : Store) (g : GuardId) : Guard := s.guards[g.index]?.getD default

def stable (s : Store) (t : StableId) : StableValue := s.stables[t.index]?.getD default

/-- The guard of a finished lookup. -/
def lookup (s : Store) (r : LookupId) : Guard := s.lookups[r.index]?.getD default

def layout (s : Store) (l : LayoutId) : Layout := s.layouts[l.index]?.getD default

def activation (s : Store) (a : ActivationId) : Activation := s.activations[a.index]?.getD default

def callable (s : Store) (c : CallableId) : Callable := s.callables[c.index]?.getD default

def target (s : Store) (t : TargetId) : CallTarget := s.targets[t.index]?.getD default

/-- The guard of a demand, valid until the caller is asked for. -/
def demand (s : Store) (d : CallerDemand) : Guard := s.demands[d.index]?.getD default

def cache (s : Store) (c : CacheId) : LookupCache := s.caches[c.index]?.getD default

def site (s : Store) (i : SiteId) : CallSite := s.sites[i.index]?.getD default

/-- The layout of an activation. -/
def layoutOf (s : Store) (a : ActivationId) : LayoutId := (s.activation a).layout

/-- The metadata of a slot. -/
def slot? (s : Store) (l : LayoutId) (i : Nat) : Option SlotInfo := (s.layout l).slots[i]?

/-- The text of a name. -/
def spell (s : Store) (n : Name) : String := s.interner.lookup n

def modifyLayout (s : Store) (l : LayoutId) (f : Layout → Layout) : Store :=
  { s with layouts := s.layouts.modify l.index f }

def modifyActivation (s : Store) (a : ActivationId) (f : Activation → Activation) : Store :=
  { s with activations := s.activations.modify a.index f }

def modifyCallable (s : Store) (c : CallableId) (f : Callable → Callable) : Store :=
  { s with callables := s.callables.modify c.index f }

def modifyTarget (s : Store) (t : TargetId) (f : CallTarget → CallTarget) : Store :=
  { s with targets := s.targets.modify t.index f }

def modifyCache (s : Store) (c : CacheId) (f : LookupCache → LookupCache) : Store :=
  { s with caches := s.caches.modify c.index f }

def modifySite (s : Store) (i : SiteId) (f : CallSite → CallSite) : Store :=
  { s with sites := s.sites.modify i.index f }

def modifySlot (s : Store) (l : LayoutId) (i : Nat) (f : SlotInfo → SlotInfo) : Store :=
  s.modifyLayout l (·.modifySlot i f)

/-! ## Adding -/

def addGuard (s : Store) (label : String) : Store :=
  { s with guards := s.guards.push ⟨label, true⟩ }

def addStable (s : Store) (label : String) (v : Option Value) : Store :=
  { s with stables := s.stables.push ⟨v, ⟨label, true⟩⟩ }

def addLookup (s : Store) (label : String) : Store :=
  { s with lookups := s.lookups.push ⟨label, true⟩ }

def addLayout (s : Store) (l : Layout) : Store := { s with layouts := s.layouts.push l }

def addActivation (s : Store) (a : Activation) : Store :=
  { s with activations := s.activations.push a }

def addCache (s : Store) (n : Name) : Store := { s with caches := s.caches.push { name := n } }

def newGuard (label : String) : StoreM GuardId :=
  modifyGet fun s => (⟨s.guards.size⟩, s.addGuard label)

/-- A stable value with a guard of its own. -/
def newStable (label : String) (v : Option Value) : StoreM StableId :=
  modifyGet fun s => (⟨s.stables.size⟩, s.addStable label v)

/-- The guard of a lookup that has just been finished. -/
def newLookup (label : String) : StoreM LookupId :=
  modifyGet fun s => (⟨s.lookups.size⟩, s.addLookup label)

def newLayout (label : String) (kind : LayoutKind) (policy : BindingPolicy) : StoreM LayoutId := do
  let noActiveBinding ← newGuard (label ++ " has no active bindings")
  let enclosingGuard ← newGuard (label ++ " enclosing")
  modifyGet fun s =>
    (⟨s.layouts.size⟩, s.addLayout { label, kind, policy, noActiveBinding, enclosingGuard })

def newActivation (a : Activation) : StoreM ActivationId :=
  modifyGet fun s => (⟨s.activations.size⟩, s.addActivation a)

def newCallable (c : Callable) : StoreM CallableId :=
  modifyGet fun s => (⟨s.callables.size⟩, { s with callables := s.callables.push c })

def newTarget (t : CallTarget) : StoreM TargetId :=
  modifyGet fun s => (⟨s.targets.size⟩, { s with targets := s.targets.push t })

def newCache (n : Name) : StoreM CacheId :=
  modifyGet fun s => (⟨s.caches.size⟩, s.addCache n)

def newSite (site : CallSite) : StoreM SiteId :=
  modifyGet fun s => (⟨s.sites.size⟩, { s with sites := s.sites.push site })

/-- Interns a text. -/
def intern (text : String) : StoreM Name :=
  modifyGet fun s => let (n, interner) := s.interner.intern text; (n, { s with interner })

/-- Runs an operation on texts, lists and groups. -/
def onHeap {α : Type} (act : StateM Heap α) : StoreM α :=
  modifyGet fun s => let (r, heap) := act.run s.heap; (r, { s with heap })

/-! ## Guards -/

def guardValid (s : Store) (g : GuardId) : Bool := (s.guard g).valid

/-- Invalidates a guard, for good. -/
def invalidate (s : Store) (g : GuardId) : Store :=
  { s with guards := s.guards.modify g.index Guard.fallen }

/-- Whether a stable value still describes its binding. -/
def stableValid (s : Store) (t : StableId) : Bool := (s.stable t).guard.valid

/-- Invalidates a stable value, for good. -/
def invalidateStable (s : Store) (t : StableId) : Store :=
  { s with stables := s.stables.modify t.index fun v => { v with guard := v.guard.fallen } }

/-- Whether the walk of a lookup would still go the same way. -/
def lookupValid (s : Store) (r : LookupId) : Bool := (s.lookup r).valid

/-- Invalidates a lookup, for good. -/
def invalidateLookup (s : Store) (r : LookupId) : Store :=
  { s with lookups := s.lookups.modify r.index Guard.fallen }

/-- Invalidates several lookups. -/
def invalidateEach (s : Store) (rs : List LookupId) : Store := rs.foldl invalidateLookup s

/-- The guard that a reference of the embedding program leads to. -/
def guardAt (s : Store) : GuardRef → Guard
  | .plain g  => s.guard g
  | .stable t => (s.stable t).guard
  | .lookup r => s.lookup r

/-- Invalidates a guard by a reference of the embedding program. -/
def invalidateAt (s : Store) : GuardRef → Store
  | .plain g  => s.invalidate g
  | .stable t => s.invalidateStable t
  | .lookup r => s.invalidateLookup r

/-! ## References from outside -/

/-- Keeps objects alive for the rest of the operation in progress. -/
def hold (s : Store) (rs : List Ref) : Store := { s with stack := rs ++ s.stack }

/-- Keeps objects alive until they are released. -/
def acquire (s : Store) (rs : List Ref) : Store := { s with handles := rs ++ s.handles }

/-- Gives up one handle per reference. -/
def release (s : Store) (rs : List Ref) : Store := { s with handles := rs.foldl List.erase s.handles }

/-- Everything held from outside. -/
def roots (s : Store) : List Ref := s.stack ++ s.handles

/-- The strong references that an object holds; none if it was never made. -/
def refs (s : Store) : Ref → List Ref
  | .layout l     => (s.layouts[l.index]?.map Layout.refs).getD []
  | .activation a => (s.activations[a.index]?.map Activation.refs).getD []
  | .callable c   => (s.callables[c.index]?.map Callable.refs).getD []
  | .list l       => (s.heap.items l).toList.flatMap Value.refs
  | .group g      => (s.heap.entries g).flatMap GroupEntry.refs
  | .stable t     => (s.stables[t.index]?.map StableValue.refs).getD []
  | .cache c      => (s.caches[c.index]?.map LookupCache.refs).getD []
  | .site i       => (s.sites[i.index]?.map CallSite.refs).getD []

end Store

end ScopeCall
