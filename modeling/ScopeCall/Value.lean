import ScopeCall.Name

/-!
# `ScopeCall.Value` — values and the identities they carry

A value is a scalar, or an identity: the number of a text, list, function, group or getter that is
kept elsewhere. Two values are the *same* (`Value.sameIdentity`) if they are scalars of one kind and
equal (floats by their bits), or identities of one object. As a value here is no more than that, the
same values are the equal ones (`=`, decidable). Comparison by content is `Heap.equal`.

## Contents
- **Identities.** One type of numbers per kind of object.
- **Values.** `Value`, its type names, and which values are mutable in place.
- **Sameness.** `Value.sameIdentity` and `Value.unchanged`.
-/

namespace ScopeCall

/-! ## Identities -/

structure TextId where
  index : Nat
deriving DecidableEq, Repr, Inhabited

structure ListId where
  index : Nat
deriving DecidableEq, Repr, Inhabited

structure GroupId where
  index : Nat
deriving DecidableEq, Repr, Inhabited

/-- Identifies a computation of the embedding program that yields a value each time it is run. -/
structure GetterId where
  index : Nat
deriving DecidableEq, Repr, Inhabited

/-- Identifies the body of a function, which the embedding program runs. -/
structure BodyId where
  index : Nat
deriving DecidableEq, Repr, Inhabited

structure GuardId where
  index : Nat
deriving DecidableEq, Repr, Inhabited

/-- Identifies a finished lookup, by the guard that certifies its result. -/
structure LookupId where
  index : Nat
deriving DecidableEq, Repr, Inhabited

structure StableId where
  index : Nat
deriving DecidableEq, Repr, Inhabited

structure LayoutId where
  index : Nat
deriving DecidableEq, Repr, Inhabited

structure ActivationId where
  index : Nat
deriving DecidableEq, Repr, Inhabited

structure CallableId where
  index : Nat
deriving DecidableEq, Repr, Inhabited

structure TargetId where
  index : Nat
deriving DecidableEq, Repr, Inhabited

structure CacheId where
  index : Nat
deriving DecidableEq, Repr, Inhabited

structure SiteId where
  index : Nat
deriving DecidableEq, Repr, Inhabited

/-! ## Values -/

/-- A run-time value. A float is kept as its bits, which is how it is told apart from others. -/
inductive Value where
  | null
  | bool (b : Bool)
  | int (n : Int64)
  | float (bits : UInt64)
  | text (id : TextId)
  /-- A list, mutable in place by everyone who holds it. -/
  | list (id : ListId)
  | function (id : CallableId)
  /-- The leftover arguments of a call. -/
  | group (id : GroupId)
  /-- A binding that is recomputed each time it is read. -/
  | active (id : GetterId)
deriving DecidableEq, Repr, Inhabited

namespace Value

/-- The name of a value's type, as error messages give it. -/
def typeName : Value → String
  | .null       => "null"
  | .bool _     => "bool"
  | .int _      => "int"
  | .float _    => "float"
  | .text _     => "str"
  | .list _     => "list"
  | .function _ => "function"
  | .group _    => "..."
  | .active _   => "active binding"

/-- A value mutable in place must not be shared by several contexts through one binding. -/
def isContextUnsafe : Value → Bool
  | .list _ => true
  | _       => false

def isActive : Value → Bool
  | .active _ => true
  | _         => false

def asCallable? : Value → Option CallableId
  | .function c => some c
  | _           => none

def asGroup? : Value → Option GroupId
  | .group g => some g
  | _        => none

/-! ## Sameness -/

/-- Whether two values are the same one, as far as tracking is concerned: scalars by value, everything
    else by identity. -/
def sameIdentity : Value → Value → Bool
  | .null,       .null       => true
  | .bool a,     .bool b     => a == b
  | .int a,      .int b      => a == b
  | .float a,    .float b    => a == b
  | .text a,     .text b     => a == b
  | .list a,     .list b     => a == b
  | .function a, .function b => a == b
  | .group a,    .group b    => a == b
  | .active a,   .active b   => a == b
  | _,           _           => false

@[simp] theorem sameIdentity_iff_eq (a b : Value) : a.sameIdentity b = true ↔ a = b := by
  cases a <;> cases b <;> simp [sameIdentity]

/-- Whether a slot that held `old` holds the same thing when it is given `new`. -/
def unchanged : Option Value → Option Value → Bool
  | some old, some new => old.sameIdentity new
  | none,     none     => true
  | _,        _        => false

@[simp] theorem unchanged_iff_eq (old new : Option Value) : unchanged old new = true ↔ old = new := by
  cases old <;> cases new <;> simp [unchanged]

end Value

end ScopeCall
