import ScopeCall.Value

/-!
# `ScopeCall.Heap` — texts, lists and groups

The contents behind the identities that plain values carry. Texts and groups never change; a list
grows in place. Identities are never reused.

## Contents
- **Objects.** Allocation and reading.
- **Comparison.** `Heap.equal` compares by content, lists with a shortcut for identity.
- **Copying.** `Heap.copyForContext` copies a list, and every list inside it.

Both recursions descend through containers, so a chain of distinct containers is at most as long as
there are containers: `Heap.depthBound` is fuel enough for values that do not contain themselves.
-/

namespace ScopeCall

/-- One leftover argument: its name, if it was supplied by name, and its value. -/
structure GroupEntry where
  name : Option Name
  value : Value
deriving DecidableEq, Repr, Inhabited

/-- The contents of texts, lists and groups, by identity. -/
structure Heap where
  texts : Array String := #[]
  lists : Array (Array Value) := #[]
  groups : Array (List GroupEntry) := #[]
deriving DecidableEq, Repr, Inhabited

namespace Heap

/-! ## Objects -/

def text (h : Heap) (id : TextId) : String := h.texts[id.index]?.getD ""

def items (h : Heap) (id : ListId) : Array Value := h.lists[id.index]?.getD #[]

def entries (h : Heap) (id : GroupId) : List GroupEntry := h.groups[id.index]?.getD []

/-- A new text object, different from every earlier one even if it reads the same. -/
def newText (text : String) : StateM Heap TextId :=
  modifyGet fun h => (⟨h.texts.size⟩, { h with texts := h.texts.push text })

def newList (items : Array Value) : StateM Heap ListId :=
  modifyGet fun h => (⟨h.lists.size⟩, { h with lists := h.lists.push items })

def newGroup (entries : List GroupEntry) : StateM Heap GroupId :=
  modifyGet fun h => (⟨h.groups.size⟩, { h with groups := h.groups.push entries })

/-- Appends a value to a list, for everyone who holds the list. -/
def push (h : Heap) (id : ListId) (v : Value) : Heap :=
  { h with lists := h.lists.modify id.index (·.push v) }

/-- The longest chain of distinct containers, one inside the other, is shorter than this. -/
def depthBound (h : Heap) : Nat := h.lists.size + h.groups.size + 1

/-! ## Comparison -/

/-- Elementwise comparison of two lists of equal length. -/
def allEqual {α : Type} (eq : α → α → Bool) : List α → List α → Bool
  | [],      []      => true
  | x :: xs, y :: ys => eq x y && allEqual eq xs ys
  | _,       _       => false

/-- Comparison by content down to a depth; below it, by identity. -/
def equalTo (h : Heap) : Nat → Value → Value → Bool
  | _ + 1, .text a,  .text b  => h.text a == h.text b
  | n + 1, .list a,  .list b  =>
    a == b || allEqual (h.equalTo n) (h.items a).toList (h.items b).toList
  | n + 1, .group a, .group b =>
    allEqual (fun x y => x.name == y.name && h.equalTo n x.value y.value)
      (h.entries a) (h.entries b)
  | _,     a,        b        => a.sameIdentity b

/-- Comparison by content: texts by their characters, lists and groups entry by entry (group
    entries with their names), everything else by identity. -/
def equal (h : Heap) (a b : Value) : Bool := h.equalTo h.depthBound a b

/-! ## Copying -/

/-- Copies a list and, down to a depth, every list among its elements; other values are shared. -/
def copyTo : Nat → Value → StateM Heap Value
  | n + 1, .list id => do
    let items := (← get).items id
    let copies ← items.toList.mapM (copyTo n)
    return .list (← newList copies.toArray)
  | _, v => return v

/-- The value to install in another context: lists are copied through and through, everything else
    is shared. -/
def copyForContext (v : Value) : StateM Heap Value := do
  copyTo (← get).depthBound v

end Heap

end ScopeCall
