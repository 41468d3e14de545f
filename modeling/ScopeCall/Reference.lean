import ScopeCall.Activation
import ScopeCall.CallSite
import ScopeCall.Heap

/-!
# `ScopeCall.Reference` — what keeps what alive

Objects live as long as something refers to them strongly. This module lists, for each kind of
object, the strong references that it holds. Links from a layout to its parent, its children and
its singleton activation, the activation of a `boundAt` result, and an elided caller are not among
them.

## Contents
- **References.** `Ref`: the objects whose lifetime can be observed, or that keep such objects alive.
- **Strong references by kind of object.** One `refs` function each.
-/

namespace ScopeCall

/-! ## References -/

/-- A strong reference to an object. Texts, guards, targets and bodies refer to nothing and are
    referred to by strong references only, so their lifetime shows nowhere. -/
inductive Ref where
  | layout (id : LayoutId)
  | activation (id : ActivationId)
  | callable (id : CallableId)
  | list (id : ListId)
  | group (id : GroupId)
  | stable (id : StableId)
  | cache (id : CacheId)
  | site (id : SiteId)
deriving DecidableEq, Repr, Inhabited

/-! ## Strong references by kind of object -/

def Value.refs : Value → List Ref
  | .list l     => [.list l]
  | .function c => [.callable c]
  | .group g    => [.group g]
  | _           => []

def StableValue.refs (s : StableValue) : List Ref := (s.value.map Value.refs).getD []

def LookupResult.refs : LookupResult → List Ref
  | .stable s _ => [.stable s]
  | _           => []

def Layout.refs (l : Layout) : List Ref :=
  l.slots.toList.filterMap (fun i => i.stable.map Ref.stable) ++ l.memos.flatMap (·.2.refs)

def Activation.refs (a : Activation) : List Ref :=
  .layout a.layout :: (a.enclosing.map Ref.activation).toList
    ++ a.contents.toList.flatMap (·.values.flatMap Value.refs)

def Callable.refs (c : Callable) : List Ref :=
  (c.layout?.map Ref.layout).toList ++ (c.enclosing?.map Ref.activation).toList
    ++ c.formals.flatMap (fun f => (f.default?.map Value.refs).getD [])

def GroupEntry.refs (e : GroupEntry) : List Ref := e.value.refs

def LookupCache.refs (c : LookupCache) : List Ref := (c.cached.map (·.2.refs)).getD []

def ArgSpec.refs (spec : ArgSpec) : List Ref :=
  match spec.expr with
  | .const v => v.refs
  | .read c  => [.cache c]
  | .forward => []

def CalleeExpr.refs : CalleeExpr → List Ref
  | .read c  => [.cache c]
  | .value v => v.refs

def CallSite.refs (s : CallSite) : List Ref :=
  s.callee.refs ++ s.args.flatMap ArgSpec.refs
    ++ s.nodes.toList.flatMap (fun n => n.callables.map Ref.callable)

def CallerHandle.refs : CallerHandle → List Ref
  | .materialized a => [.activation a]
  | .elided ..      => []

def Invocation.refs (inv : Invocation) : List Ref :=
  .callable inv.callable :: .activation inv.activation :: inv.caller.refs

def IntrinsicCall.refs (call : IntrinsicCall) : List Ref :=
  .callable call.callable :: .activation call.caller
    :: call.args.flatMap (fun v => (v.map Value.refs).getD [])

def Entry.refs : Entry → List Ref
  | .closure _ inv    => inv.refs
  | .intrinsic _ call => call.refs

end ScopeCall
