import ScopeCall.Lookup
import ScopeCall.Text.Quoted
import ScopeCall.Text.Shortest

/-!
# `ScopeCall.Display` — objects in diagnostics

Values are shown much as they are written; other objects as a word with some of their fields. A record
that shows only part of an object ends in two dots.

## Contents
- **Pieces.** Records, lists and optional parts.
- **Values.** `Store.showValue`.
- **Other objects.** One `show…` function each.
-/

namespace ScopeCall

namespace Display

/-! ## Pieces -/

/-- A word with its fields in braces. -/
def record (word : String) (fields : List String) : String :=
  word ++ " \x7b " ++ ", ".intercalate fields ++ " \x7d"

def field (name text : String) : String := name ++ ": " ++ text

def list (items : List String) : String := "[" ++ ", ".intercalate items ++ "]"

def option : Option String → String
  | some text => "Some(" ++ text ++ ")"
  | none      => "None"

/-- The end of a record that shows only part of an object. -/
def more : String := ".."

def weak (word : String) (target : Option String) : String :=
  word ++ "(" ++ target.getD "<dropped>" ++ ")"

end Display

namespace Store

open Display

/-! ## Values -/

/-- A value, with containers shown down to a depth. -/
def showValueTo (s : Store) : Nat → Value → String
  | _, .null       => "null"
  | _, .bool b     => toString b
  | _, .int n      => toString n.toInt
  | _, .float bits => Text.float bits
  | _, .text t     => Text.quote (s.heap.text t)
  | _, .function c => "<function " ++ (s.callable c).label ++ ">"
  | _, .active _   => "<active binding>"
  | n + 1, .list l => list ((s.heap.items l).toList.map (s.showValueTo n))
  | n + 1, .group g => list ((s.heap.entries g).map fun e =>
      record "VariadicEntry"
        [field "name" (option (e.name.map Name.debug)), field "value" (s.showValueTo n e.value)])
  | 0, _           => more

def showValue (s : Store) (v : Value) : String := s.showValueTo s.heap.depthBound v

/-! ## Other objects -/

def showGuard (g : Guard) : String :=
  record "Guard" [field "label" (Text.quote g.label), field "valid" (toString g.valid)]

def showStableFields (value : Option String) (valid : Bool) : List String :=
  [field "value" (option value), field "valid" (toString valid)]

def showStable (s : Store) (t : StableId) : String :=
  "SharedStable(" ++ record "StableValue"
    (showStableFields ((s.stable t).value.map s.showValue) (s.stableValid t)) ++ ")"

def showLayout (s : Store) (l : LayoutId) : String :=
  let layout := s.layout l
  record "Layout" [field "label" (Text.quote layout.label), field "id" (toString (l.index + 1)),
    field "kind" layout.kind.name, more]

def showWeakLayout (s : Store) (l : LayoutId) : String :=
  weak "WeakLayout" ((s.upgradeLayout l).map fun l => Text.quote (s.layout l).label)

def showActivation (s : Store) (a : ActivationId) : String :=
  let act := s.activation a
  record "Activation" [field "id" (toString act.serial),
    field "layout" (Text.quote (s.layout act.layout).label),
    field "depth" (toString act.depth), more]

def showWeakActivation (s : Store) (a : ActivationId) : String :=
  weak "WeakActivation" ((s.upgradeActivation a).map fun a => toString (s.activation a).serial)

def showResult (s : Store) (r : LookupResult) : String :=
  let valid := toString (s.resultValid r)
  match r with
  | .stable t _       =>
    record "StableValue" (showStableFields ((s.stable t).value.map s.showValue) (s.resultValid r))
  | .boundAt a slot _ =>
    record "BoundAt" [field "activation" (s.showWeakActivation a), field "slot" (toString slot),
      field "valid" valid]
  | .unbound _        => record "Unbound" [field "valid" valid]

def showCache (s : Store) (c : CacheId) : String :=
  let cache := s.cache c
  record "LookupCache" [field "name" cache.name.debug,
    field "cached" (option (cache.cached.map fun (_, r) => s.showResult r))]

def showTarget (s : Store) (t : TargetId) : String :=
  let target := s.target t
  record "CallTarget" [field "dedicated" (toString target.dedicated),
    field "calls" (toString target.calls), more]

def showDemand (s : Store) (d : CallerDemand) : String :=
  record "CallerDemand" [field "not_needed" (showGuard (s.demand d))]

end Store

namespace Interner

def debug (t : Interner) : String :=
  Display.record "StringInterner" [Display.field "len" (toString t.size)]

end Interner

end ScopeCall
