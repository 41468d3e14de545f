/-!
# `ScopeCall.Name` — interned identifiers

Names are numbers handed out by an `Interner`, so that every cache of this library compares and
stores numbers and only reports spell them out.

## Contents
- **Names.** `Name`, with the two reserved ones: `Name.empty` (never a legal argument name) and
  `Name.variadic` (the name under which a group of leftover arguments is bound).
- **Interner.** `Interner.tryIntern` hands out numbers densely, in order of first appearance after the
  reserved two, as long as there are any; `Interner.lookup` spells a name, and is total.
-/

namespace ScopeCall

/-! ## Names -/

/-- An interned identifier; two names of one interner are equal exactly when their texts are. -/
structure Name where
  raw : Nat
deriving DecidableEq, Repr, Inhabited

namespace Name

/-- The empty text. A supplied argument may not carry it as its name. -/
def empty : Name := ⟨0⟩

/-- The text `...`, under which a group of leftover arguments is bound. -/
def variadic : Name := ⟨1⟩

def isEmpty (n : Name) : Bool := n == empty

def isVariadic (n : Name) : Bool := n == variadic

/-- A name in diagnostics: the reserved ones spelled out, the others by number. -/
def debug (n : Name) : String :=
  if n.isEmpty then "Name(\"\")"
  else if n.isVariadic then "Name(...)"
  else "Name(" ++ toString n.raw ++ ")"

end Name

/-! ## Interner -/

/-- How many names can be told apart. -/
def nameBound : Nat := UInt32.size

/-- No name is left for a new text; `count` texts are known. -/
structure InternError where
  count : Nat
deriving DecidableEq, Repr, Inhabited

def InternError.message (e : InternError) : String :=
  "interner exhausted after " ++ toString e.count ++ " names"

/-- The texts seen so far, and the name of each: the text at position `i` is spelled by the name with
    number `i`. -/
structure Interner where
  names : List (String × Name)
  texts : Array String
deriving DecidableEq, Repr, Inhabited

namespace Interner

/-- An interner that knows the two reserved texts only. -/
def new : Interner := ⟨[("", .empty), ("...", .variadic)], #["", "..."]⟩

/-- How many texts are known, the reserved ones included. -/
def size (t : Interner) : Nat := t.texts.size

/-- The name of a text that was interned before. -/
def find? (t : Interner) (text : String) : Option Name := t.names.lookup text

/-- Knows one more text, by the next free number. -/
def add (t : Interner) (text : String) : Interner :=
  ⟨(text, ⟨t.size⟩) :: t.names, t.texts.push text⟩

/-- The name of `text`, which takes the next free number if the text is new. -/
def tryIntern (t : Interner) (text : String) : Except InternError (Name × Interner) :=
  match t.find? text with
  | some n => .ok (n, t)
  | none   => if t.size < nameBound then .ok (⟨t.size⟩, t.add text) else .error ⟨t.size⟩

/-- The name of `text`. Running out of numbers ends the program; what is answered then is not a name
    of the text. -/
def intern (t : Interner) (text : String) : Name × Interner :=
  match t.tryIntern text with
  | .ok answer => answer
  | .error _   => (.empty, t)

/-- The text of a name; a number that was never handed out reads `<unknown>`. -/
def lookup (t : Interner) (n : Name) : String := t.texts[n.raw]?.getD "<unknown>"

/-- Interns every text of a list, in order. -/
def internAll (t : Interner) : List String → List Name × Interner
  | []         => ([], t)
  | s :: texts =>
    let (n, t) := t.intern s
    let (ns, t) := t.internAll texts
    (n :: ns, t)

end Interner

end ScopeCall
