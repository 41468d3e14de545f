import ScopeCall.FanOut
import ScopeCall.Lookup

/-!
# `ScopeCall.Proofs.Running` — what an operation does, in one expression

The operations are written step by step. Here each is run: its answer and the store it leaves are
given as one expression per outcome, which later modules read without opening the operation again.

## Contents
- **Running step by step.** Reading, changing and sequencing.
- **Layouts.** Linking, relinking, and the slot for a name.
- **Activations.** Entering a layout.
- **Reading and writing.**
- **Moving scopes.**
- **Looking up.**
- **Values for contexts.**
-/

namespace ScopeCall

namespace Store

variable {α β : Type} (s : Store)

/-! ## Running step by step -/

theorem run_get_bind (f : Store → FaultM α) : (get >>= f).run.run s = (f s).run.run s := rfl

theorem run_modify_bind (g : Store → Store) (f : Unit → FaultM α) :
    (modify g >>= f).run.run s = (f ()).run.run (g s) := rfl

theorem run_get_bind_state (f : Store → StoreM α) : (get >>= f).run s = (f s).run s := rfl

theorem run_modify_bind_state (g : Store → Store) (f : Unit → StoreM α) :
    (modify g >>= f).run s = (f ()).run (g s) := rfl

theorem run_pure_state (a : α) : (pure a : StoreM α).run s = (a, s) := rfl

theorem run_bind_state (act : StoreM β) (f : β → StoreM α) :
    (act >>= f).run s = (f (act.run s).1).run (act.run s).2 := rfl

theorem run_bind (act : FaultM β) (f : β → FaultM α) :
    (act >>= f).run.run s = match act.run.run s with
      | (.ok b, s₁)    => (f b).run.run s₁
      | (.error e, s₁) => (.error e, s₁) := by
  simp only [ExceptT.run_bind, StateT.run_bind]
  rcases act.run.run s with ⟨e | b, s₁⟩ <;> rfl

theorem run_lift_bind (act : StoreM β) (f : β → FaultM α) :
    ((liftM act : FaultM β) >>= f).run.run s = (f (act.run s).1).run.run (act.run s).2 := rfl

/-- What `f` preserves whatever it answers, a series of runs of `f` preserves. -/
theorem run_mapM_induction {P : Store → Prop} {f : β → FaultM α}
    (hf : ∀ b s, P s → P ((f b).run.run s).2) (bs : List β) {s : Store} (h : P s) :
    P ((bs.mapM f).run.run s).2 := by
  induction bs generalizing s with
  | nil => exact h
  | cons b bs ih =>
      have hb := hf b s h
      rw [List.mapM_cons, run_bind]
      generalize (f b).run.run s = result at hb ⊢
      rcases result with ⟨e | x, s₁⟩
      · exact hb
      · have hrest := ih hb
        dsimp only
        rw [run_bind]
        generalize (bs.mapM f).run.run s₁ = result at hrest ⊢
        rcases result with ⟨e | xs, s₂⟩ <;> exact hrest

/-! ## Layouts -/

theorem newLayout_run (label : String) (kind : LayoutKind) (policy : BindingPolicy) :
    (newLayout label kind policy).run s
      = (⟨s.layouts.size⟩, ((s.addGuard (label ++ " has no active bindings")).addGuard
          (label ++ " enclosing")).addLayout
          { label, kind, policy, noActiveBinding := ⟨s.guards.size⟩
            enclosingGuard := ⟨(s.addGuard (label ++ " has no active bindings")).guards.size⟩ }) :=
  rfl

/-- The store after a layout has been linked to another parent. -/
def relinked (l : LayoutId) (parent : Option LayoutId) : Store :=
  ((s.invalidate (s.layout l).enclosingGuard).addGuard ((s.layout l).label ++ " enclosing")).modifyLayout
    l (·.linkTo parent ⟨(s.invalidate (s.layout l).enclosingGuard).guards.size⟩)

/-- A layout without a live parent is linked; in every other case nothing changes. -/
theorem initializeEnclosing_run (l : LayoutId) (parent : Option LayoutId) :
    (initializeEnclosing l parent).run.run s = match s.parent l, parent with
      | none, some p => (.ok (), (s.relinked l (some p)).addChild p l)
      | actual, parent =>
        if actual = parent then (.ok (), s)
        else (.error (.enclosingMismatch (s.layout l).label
          (parent.map fun p => (s.layout p).label) (actual.map fun a => (s.layout a).label)), s) := by
  rw [initializeEnclosing, run_get_bind]
  cases hp : s.parent l with
  | none => cases parent <;> rfl
  | some a =>
      cases parent with
      | none => rfl
      | some p => by_cases h : some a = some p <;> simp only [h, if_true, if_false] <;> rfl

/-- The store after a layout has been linked to another parent, and taken from the one it had. -/
def unhooked (l : LayoutId) (parent : Option LayoutId) : Store :=
  match s.parent l with
    | some old => (s.relinked l parent).removeChild old l
    | none     => s.relinked l parent

/-- The store after a layout has been moved to another parent, or to none. -/
def rehung (l : LayoutId) (parent : Option LayoutId) : Store :=
  match parent with
    | some p => (s.unhooked l parent).addChild p l
    | none   => s.unhooked l parent

theorem relinkTo_run (l : LayoutId) (parent : Option LayoutId) :
    ((relinkTo l parent).run s).2 = (s.invalidateAll l).rehung l parent := by
  unfold relinkTo rehung unhooked
  cases h : (s.invalidateAll l).parent l <;> cases parent <;> simp [h] <;> rfl

theorem requireParent_run (l : LayoutId) :
    (requireParent l).run.run s = match s.parent l with
      | some p => (.ok p, s)
      | none   => (.error (.noEnclosingLayout (s.layout l).label), s) := by
  rw [requireParent, run_get_bind]
  cases s.parent l <;> rfl

/-- The store after a layout has been put between another and its parent. -/
def spliced (l inserted old : LayoutId) : Store :=
  let s₁ := (s.relinked inserted (some old)).relinked l (some inserted)
  ((s₁.addChild inserted l).removeChild old l).addChild old inserted

/-- The store after the sweeps before a layout is inserted. -/
def cleared (l inserted : LayoutId) : Store :=
  let s₁ := s.invalidateAll inserted
  s₁.invalidateNames l (s₁.layout inserted).identifiers

/-- The store after the inserted layout has taken over what was recorded behind it. -/
def inherited (inserted old : LayoutId) : Store :=
  s.modifyLayout inserted (·.inherit (s.layout old).recorded)

theorem insertEnclosing_run (l inserted : LayoutId) :
    (insertEnclosing l inserted).run.run s = match s.parent l with
      | none     => (.error (.noEnclosingLayout (s.layout l).label), s)
      | some old =>
        (.ok (), ((s.cleared l inserted).inherited inserted old).spliced l inserted old) := by
  rw [insertEnclosing, run_bind, requireParent_run]
  cases s.parent l <;> rfl

/-- The store after the parent `old` of a layout has been taken out of the chain. -/
def bypassed (l old : LayoutId) (grandparent : Option LayoutId) : Store :=
  let s₁ := ((s.relinked l grandparent).relinked old none).removeChild old l
  match grandparent with
    | none   => s₁
    | some g => (s₁.removeChild g old).addChild g l

theorem removeEnclosing_run (l : LayoutId) :
    (removeEnclosing l).run.run s = match s.parent l with
      | none     => (.error (.noEnclosingLayout (s.layout l).label), s)
      | some old => (.ok (), (s.invalidateNames old (s.layout old).identifiers).bypassed l old
          (s.parent old)) := by
  rw [removeEnclosing, run_bind, requireParent_run]
  cases s.parent l with
  | none => rfl
  | some old =>
      dsimp only
      rw [run_get_bind]
      unfold bypassed
      cases s.parent old <;> rfl

/-- The store after a slot for a name has been added to a layout. -/
def widened (l : LayoutId) (n : Name) : Store :=
  let layout := s.layout l
  let i := layout.slots.size
  let label := layout.label ++ "[" ++ toString i ++ "]"
  let s₁ := if layout.kind.isSingleton then s.addStable label none else s
  let s₂ := s₁.addGuard (label ++ " not modified non-locally")
  (s₂.addGuard (label ++ " not fanned out")).modifyLayout l (·.addSlot {
    name := n, label
    notModifiedNonLocally := ⟨s₁.guards.size⟩
    noFanOut := ⟨s₂.guards.size⟩
    mayFanOut := layout.kind.mayFanOut
    stable := if layout.kind.isSingleton then some ⟨s.stables.size⟩ else none
    budget := layout.policy.budgetFor layout.kind })

theorem findOrAddSlot_run (l : LayoutId) (n : Name) :
    (findOrAddSlot l n).run s = match (s.layout l).slotIndex? n with
      | some i => (i, s)
      | none   => ((s.layout l).slots.size, (s.widened l n).invalidateNames l [n]) := by
  cases h : (s.layout l).slotIndex? n with
  | some i => simp [findOrAddSlot, h]; rfl
  | none =>
      by_cases hk : (s.layout l).kind.isSingleton = true <;>
        simp [findOrAddSlot, newSlotInfo, h, hk, widened] <;> rfl

/-! ## Activations -/

theorem recordWrite_run (l : LayoutId) (i : Nat) (v : Option Value) :
    (recordWrite l i v).run s = match s.slot? l i with
      | none      => (false, s)
      | some info => match info.stable with
        | none   => (false, s)
        | some t =>
          if (s.stable t).value = v then (false, s)
          else ((s.stable t).value.isNone && v.isSome, s.replaceStable l i info t v) := by
  cases h : s.slot? l i with
  | none => simp [recordWrite, h]; rfl
  | some info =>
      cases ht : info.stable with
      | none => simp [recordWrite, h, ht]; rfl
      | some t => by_cases hv : (s.stable t).value = v <;> simp [recordWrite, h, ht, hv] <;> rfl

/-- The store after emptying has been tracked for slots from `i` on, `n` of them. -/
def emptied (l : LayoutId) (i n : Nat) : Store :=
  (((List.range' i n).forM fun i => discard (recordWrite l i none)).run s).2

theorem emptied_succ (l : LayoutId) (i n : Nat) :
    s.emptied l i (n + 1) = ((recordWrite l i none).run s).2.emptied l (i + 1) n := by
  rw [emptied, List.range'_succ]
  rfl

theorem claimSingleton_run (l : LayoutId) (a : ActivationId) :
    ((claimSingleton l a).run s).2 =
      let s₁ := s.modifyLayout l (·.claim a)
      if (s.layout l).singleton.isSome then
        (s₁.emptied l 0 (s.layout l).slots.size).invalidateAll l
      else s₁ := by
  cases h : (s.layout l).singleton <;>
    simp [claimSingleton, h, emptied, ← List.range_eq_range'] <;> rfl

/-- The activation that entering a layout makes. -/
def entrant (l : LayoutId) (enclosing : Option ActivationId) (depth : Nat) : Activation :=
  { serial := s.nextSerial, layout := l, depth, enclosing }

/-- The store after an activation has been made. -/
def joined (l : LayoutId) (enclosing : Option ActivationId) (depth : Nat) : Store :=
  s.takeSerial.addActivation (s.entrant l enclosing depth)

/-- The store after an activation has been made, and is the one of its layout. -/
def claimed (l : LayoutId) (enclosing : Option ActivationId) (depth : Nat) : Store :=
  (s.joined l enclosing depth).modifyLayout l (·.claim ⟨s.activations.size⟩)

/-- The store after a layout has been claimed anew, and its slots have been emptied. -/
def reclaimed (l : LayoutId) (enclosing : Option ActivationId) (depth : Nat) : Store :=
  (s.claimed l enclosing depth).emptied l 0 (s.layout l).slots.size

theorem enter_run (l : LayoutId) (enclosing : Option ActivationId) (depth : Nat) :
    (enter l enclosing depth).run.run s =
      if (s.layout l).kind.isSingleton then
        if (s.singletonActivation l).isSome then
          (.error (.singletonTaken (s.layout l).label), s.takeSerial)
        else
          (.ok ⟨s.activations.size⟩, if (s.layout l).singleton.isSome then
            (s.reclaimed l enclosing depth).invalidateAll l
          else s.claimed l enclosing depth)
      else
        (.ok ⟨s.activations.size⟩, s.joined l enclosing depth) := by
  rw [enter, run_get_bind]
  by_cases hk : (s.layout l).kind.isSingleton = true
  · by_cases ha : (s.singletonActivation l).isSome = true
    · simp [hk, ha]
      rfl
    · have hclaim := claimSingleton_run (s.joined l enclosing depth) l ⟨s.activations.size⟩
      simp only [hk, ha, if_true, Bool.false_eq_true, if_false, run_modify_bind, Bool.and_false]
      exact Prod.ext rfl hclaim
  · simp [hk]
    rfl

theorem newScope_run (l : LayoutId) (enclosing : Option ActivationId) (depth : Nat) :
    (newScope l enclosing depth).run.run s =
      if s.isEnclosedBy l (enclosing.map s.layoutOf) then (enter l enclosing depth).run.run s
      else match (initializeEnclosing l (enclosing.map s.layoutOf)).run.run s with
        | (.ok _, s₁)    => (enter l enclosing depth).run.run s₁
        | (.error e, s₁) => (.error e, s₁) := by
  rw [newScope, run_get_bind]
  by_cases h : s.isEnclosedBy l (enclosing.map s.layoutOf) = true
  · simp only [h, if_true]
  · simp only [h, Bool.false_eq_true, if_false]
    rw [run_bind]
    rcases (initializeEnclosing l (enclosing.map s.layoutOf)).run.run s with ⟨e | b, s₁⟩ <;> rfl

/-! ## Reading and writing -/

theorem requireSlot_run (a : ActivationId) (slot : Nat) :
    (requireSlot a slot).run.run s = match s.slot? (s.layoutOf a) slot with
      | some info => (.ok info, s)
      | none      => (.error (.unknownSlot (s.layout (s.layoutOf a)).label slot), s) := by
  rw [requireSlot, run_get_bind]
  cases s.slot? (s.layoutOf a) slot <;> rfl

theorem requireSingleton_run (a : ActivationId) :
    (requireSingleton a).run.run s =
      if (s.layout (s.layoutOf a)).kind.isSingleton then (.ok (), s)
      else (.error (.notSingleton (s.layout (s.layoutOf a)).label), s) := by
  rw [requireSingleton, run_get_bind, run_get_bind]
  by_cases h : (s.layout (s.layoutOf a)).kind.isSingleton = true
  · simp only [h, if_true]
    rfl
  · simp only [h, Bool.false_eq_true, if_false]
    rfl

theorem requireSlot_bind_run (a : ActivationId) (slot : Nat) (f : SlotInfo → FaultM α) :
    (requireSlot a slot >>= f).run.run s = match s.slot? (s.layoutOf a) slot with
      | some info => (f info).run.run s
      | none      => (.error (.unknownSlot (s.layout (s.layoutOf a)).label slot), s) := by
  rw [run_bind, requireSlot_run]
  cases s.slot? (s.layoutOf a) slot <;> rfl

theorem requireSingleton_bind_run (a : ActivationId) (f : Unit → FaultM α) :
    (requireSingleton a >>= f).run.run s =
      if (s.layout (s.layoutOf a)).kind.isSingleton then (f ()).run.run s
      else (.error (.notSingleton (s.layout (s.layoutOf a)).label), s) := by
  rw [run_bind, requireSingleton_run]
  by_cases h : (s.layout (s.layoutOf a)).kind.isSingleton = true
  · simp only [h, if_true]
  · simp only [h, Bool.false_eq_true, if_false]

theorem store_run (a : ActivationId) (slot : Nat) (v : Value) :
    (store a slot v).run s = match s.content a slot with
      | .fanOut vs =>
        (false, s.setContent a slot (.fanOut (vs.write s.contexts.current (some v))))
      | _ =>
        (((recordWrite (s.layoutOf a) slot (some v)).run s).1,
          ((recordWrite (s.layoutOf a) slot (some v)).run s).2.setContent a slot (.value v)) := by
  cases h : s.content a slot <;> simp [store, h] <;> rfl

/-- The store before a value is stored: an active binding is noted at the layout. -/
def noted (a : ActivationId) (v : Value) : Store :=
  if v.isActive then s.invalidate (s.layout (s.layoutOf a)).noActiveBinding else s

theorem write_run (a : ActivationId) (slot : Nat) (v : Value) (nonLocal : Bool) :
    (write a slot v nonLocal).run.run s = match s.slot? (s.layoutOf a) slot with
      | none => (.error (.unknownSlot (s.layout (s.layoutOf a)).label slot), s)
      | some info =>
        let (filled, s₁) := (store a slot v).run (s.noted a v)
        let s₂ := if filled then s₁.invalidateNames (s.layoutOf a) [info.name] else s₁
        (.ok (), s₂.noteWrite info nonLocal (s₂.activation a).irregular) := by
  rw [write, requireSlot_bind_run]
  cases s.slot? (s.layoutOf a) slot with
  | none => rfl
  | some info =>
      dsimp only
      rw [run_get_bind]
      by_cases hv : v.isActive = true
      · simp only [noted, hv, if_true]
        rw [run_modify_bind, run_lift_bind]
        rcases (store a slot v).run (s.invalidate (s.layout (s.layoutOf a)).noActiveBinding)
          with ⟨_ | _, s₁⟩ <;> rfl
      · simp only [noted, hv, Bool.false_eq_true, if_false]
        rw [run_lift_bind]
        rcases (store a slot v).run s with ⟨_ | _, s₁⟩ <;> rfl

theorem bindName_run (a : ActivationId) (n : Name) (v : Value) (nonLocal : Bool) :
    ((bindName a n v nonLocal).run.run s).2
      = ((write a ((findOrAddSlot (s.layoutOf a) n).run s).1 v nonLocal).run.run
          ((findOrAddSlot (s.layoutOf a) n).run s).2).2 := by
  rw [bindName, run_get_bind, run_lift_bind, run_bind]
  rcases (write a ((findOrAddSlot (s.layoutOf a) n).run s).1 v nonLocal).run.run
    ((findOrAddSlot (s.layoutOf a) n).run s).2 with ⟨e | b, s₁⟩ <;> rfl

/-- The content of a slot after the current context has emptied it. -/
def emptiedContent (a : ActivationId) (slot : Nat) : SlotContent :=
  match s.content a slot with
  | .fanOut vs => .fanOut (vs.clear s.contexts.current)
  | _          => .empty

theorem empty_run (a : ActivationId) (slot : Nat) :
    ((empty a slot).run s).2 =
      let s₁ := if s.content a slot = .empty then s
        else s.setContent a slot (s.emptiedContent a slot)
      ((recordWrite (s.layoutOf a) slot none).run s₁).2 := by
  cases h : s.content a slot <;> simp [empty, h, emptiedContent] <;> rfl

theorem remove_run (a : ActivationId) (n : Name) :
    ((remove a n).run s).2 = match s.slotOf? a n with
      | none      => s
      | some slot => match s.slot? (s.layoutOf a) slot with
        | none      => s
        | some info =>
          let s₁ := ((empty a slot).run s).2
          (s₁.noteWrite info false (s₁.activation a).irregular).invalidateNames (s.layoutOf a) [n] := by
  rw [remove, run_get_bind_state]
  cases s.slotOf? a n with
  | none => rfl
  | some slot =>
      dsimp only
      cases s.slot? (s.layoutOf a) slot with
      | none => rfl
      | some info =>
          dsimp only
          rw [run_bind_state, run_modify_bind_state, run_modify_bind_state, run_pure_state]

/-! ## Moving scopes -/

theorem setEnclosing_run (a : ActivationId) (parent : Option ActivationId) :
    ((setEnclosing a parent).run.run s).2 =
      if (s.layout (s.layoutOf a)).kind.isSingleton then
        ((s.invalidateAll (s.layoutOf a)).rehung (s.layoutOf a)
          (parent.map s.layoutOf)).setEnclosingLink a parent
      else s := by
  rw [setEnclosing, requireSingleton_bind_run]
  split
  · rw [run_get_bind, run_lift_bind, relinkTo_run]
    rfl
  · rfl

/-- The store after a scope has been inserted, with the sweeps before and the links after. -/
theorem attach_run (a inserted : ActivationId) :
    ((attach a inserted).run.run s).2 = match s.parent (s.layoutOf a) with
      | none     => s
      | some old =>
        let i := s.layoutOf inserted
        let s₁ := ((s.cleared (s.layoutOf a) i).inherited i old).spliced (s.layoutOf a) i old
        (s₁.setEnclosingLink a (some inserted)).setEnclosingLink inserted
          (s₁.activation a).enclosing := by
  rw [attach, run_get_bind, run_bind, insertEnclosing_run]
  cases s.parent (s.layoutOf a) <;> rfl

/-- The store after a scope has been taken out of the chain. -/
theorem detachEnclosing_run (a : ActivationId) :
    ((detachEnclosing a).run.run s).2 = match s.parent (s.layoutOf a) with
      | none     => s
      | some old =>
        let s₁ := (s.invalidateNames old (s.layout old).identifiers).bypassed (s.layoutOf a) old
          (s.parent old)
        let s₂ := s₁.setEnclosingLink a none
        match (s₁.activation a).enclosing with
          | none   => s₂
          | some o => (s₂.setEnclosingLink o none).setEnclosingLink a (s₂.activation o).enclosing := by
  rw [detachEnclosing, run_get_bind, run_bind, removeEnclosing_run]
  cases s.parent (s.layoutOf a) with
  | none => rfl
  | some old =>
      dsimp only
      rw [run_get_bind, run_modify_bind]
      cases (((s.invalidateNames old (s.layout old).identifiers).bypassed (s.layoutOf a) old
        (s.parent old)).activation a).enclosing with
      | none => rfl
      | some o => rfl

/-! ## Looking up -/

/-- The store after a walk has ended with a finding. -/
def remembering (a : ActivationId) (n : Name) (f : Finding) (path : List ActivationId) : Store :=
  let start := s.layoutOf a
  let s₁ := s.addLookup ("lookup " ++ n.debug ++ " from " ++ (s.layout start).label)
  (s₁.recordWalk n path).memoize start n (f.toResult ⟨s.lookups.size⟩)

theorem resolveAnew_run (a : ActivationId) (n : Name) :
    (resolveAnew a n).run s = match s.walk n s.chainBound a with
      | none           => (none, s)
      | some (f, path) => (some (f.toResult ⟨s.lookups.size⟩), s.remembering a n f path) := by
  rw [resolveAnew, run_get_bind_state]
  rcases s.walk n s.chainBound a with _ | ⟨f, path⟩
  · rfl
  · dsimp only
    rw [run_bind_state, run_modify_bind_state, run_modify_bind_state, run_pure_state]
    rfl

theorem resolve_run (a : ActivationId) (n : Name) :
    (resolve a n).run s = match (s.layout (s.layoutOf a)).memo? n with
      | some r => if s.resultValid r then (some r, s) else (resolveAnew a n).run s
      | none   => (resolveAnew a n).run s := by
  rw [resolve, run_get_bind_state]
  cases (s.layout (s.layoutOf a)).memo? n with
  | none => rfl
  | some r => by_cases hr : s.resultValid r = true <;> simp only [hr, if_true] <;> rfl

/-- What a read site answers from a result that has just been found. -/
def answer (a : ActivationId) (n : Name) : Resolved → Option Value
  | .value v       => some v
  | .unbound       => none
  | .noInformation => s.lookupDynamic a n

theorem cachedRead_run (c : CacheId) (a : ActivationId) :
    (cachedRead c a).run s = match s.remembered c (s.layoutOf a) with
      | .value v       => (some v, s)
      | .unbound       => (none, s)
      | .noInformation => match (resolve a (s.cache c).name).run s with
        | (none, s₁)   => (s₁.lookupDynamic a (s.cache c).name, s₁)
        | (some r, s₁) =>
          let s₂ := s₁.modifyCache c fun cache => { cache with cached := some (s.layoutOf a, r) }
          (s₂.answer a (s.cache c).name (s₁.readResult r), s₂) := by
  rw [cachedRead, run_get_bind_state]
  dsimp only
  cases s.remembered c (s.layoutOf a) with
  | value v => rfl
  | unbound => rfl
  | noInformation =>
      dsimp only
      rw [run_bind_state]
      rcases (resolve a (s.cache c).name).run s with ⟨_ | r, s₁⟩
      · rfl
      · dsimp only
        rw [run_get_bind_state, run_modify_bind_state]
        cases s₁.readResult r <;> rfl

/-! ## Values for contexts -/

/-- The entries of a slot after a write outside the first context. -/
def contextEntries (a : ActivationId) (slot : Nat) (v : Value) : ContextValues :=
  let context := s.contexts.current
  match s.content a slot with
  | .fanOut vs => vs.write context (some v)
  | c          =>
    let room : ContextValues := Array.replicate (s.contextRoom context) none
    (room.write primordial (c.readIn primordial)).write context (some v)

theorem writeInContext_run (a : ActivationId) (slot : Nat) (v : Value) :
    ((writeInContext a slot v).run.run s).2 = match s.slot? (s.layoutOf a) slot with
      | none      => s
      | some info =>
        if s.contexts.current = primordial then ((write a slot v false).run.run s).2
        else if info.mayFanOut then
          (if (s.content a slot).isFanOut then s
            else s.giveUpSharing (s.layoutOf a) slot info).setContent a slot
              (.fanOut (s.contextEntries a slot v))
        else s := by
  rw [writeInContext, requireSlot_bind_run]
  cases s.slot? (s.layoutOf a) slot with
  | none => rfl
  | some info =>
      dsimp only
      rw [run_get_bind]
      by_cases hc : s.contexts.current = primordial
      · simp only [hc, if_true]
      · by_cases hf : info.mayFanOut = true
        · simp only [hc, hf, if_true, if_false, Bool.not_true, Bool.false_eq_true, contextEntries]
          cases s.content a slot <;> rfl
        · simp only [hc, hf, if_true, if_false, Bool.not_false, Bool.false_eq_true]
          rfl

/-- Whether a list is among what a slot holds and what its token says. -/
def copiesSlot (a : ActivationId) (slot : Nat) (info : SlotInfo) : Bool :=
  ((s.content a slot).readIn primordial).any Value.isContextUnsafe
    || (info.stable.map fun t => (s.stable t).value).join.any Value.isContextUnsafe

/-- The entries of a slot that is prepared for contexts, and the texts and lists after that. -/
def preparedEntries (a : ActivationId) (slot : Nat) (info : SlotInfo) (contexts : List Nat)
    (replicate : Bool) : ContextValues × Heap :=
  (fannedValues (s.content a slot) ((s.content a slot).readIn primordial) contexts
    (s.contextRoom (contexts.foldl max primordial)) replicate (s.copiesSlot a slot info)).run s.heap

/-- Preparing all slots preserves what preparing any slot preserves. -/
theorem fanOutAll_run {P : Store → Prop} (a : ActivationId) (contexts : List Nat) (replicate : Bool)
    (hslot : ∀ slot s, P s → P ((fanOutSlot a slot contexts replicate).run.run s).2) (h : P s) :
    P ((fanOutAll a contexts replicate).run.run s).2 := by
  rw [fanOutAll, requireSingleton_bind_run]
  split
  · rw [run_get_bind, run_bind]
    have hall := run_mapM_induction (f := fun slot => fanOutSlot a slot contexts replicate) hslot
      (List.range (s.layout (s.layoutOf a)).slots.size) h
    generalize ((List.range (s.layout (s.layoutOf a)).slots.size).mapM
      fun slot => fanOutSlot a slot contexts replicate).run.run s = result at hall ⊢
    rcases result with ⟨e | x, s₁⟩ <;> exact hall
  · exact h

theorem heap_giveUpSharing (l : LayoutId) (slot : Nat) (info : SlotInfo) :
    (s.giveUpSharing l slot info).heap = s.heap := by
  simp only [giveUpSharing, dropStable]
  split
  · rfl
  · split <;> rfl

theorem fanOutSlot_run (a : ActivationId) (slot : Nat) (contexts : List Nat) (replicate : Bool) :
    ((fanOutSlot a slot contexts replicate).run.run s).2 =
      if (s.layout (s.layoutOf a)).kind.isSingleton then
        match s.slot? (s.layoutOf a) slot with
        | none      => s
        | some info =>
          if !info.mayFanOut || (info.stable.isSome && !s.copiesSlot a slot info && replicate) then s
          else
            let (vs, heap) := s.preparedEntries a slot info contexts replicate
            Store.setContent { s.giveUpSharing (s.layoutOf a) slot info with heap } a slot (.fanOut vs)
      else s := by
  rw [fanOutSlot, requireSingleton_bind_run]
  split
  · rw [requireSlot_bind_run]
    cases s.slot? (s.layoutOf a) slot with
    | none => rfl
    | some info =>
        dsimp only
        rw [run_get_bind]
        have hcond : ((info.stable.map fun t => (s.stable t).value).isSome) = info.stable.isSome := by
          cases info.stable <;> rfl
        rw [preparedEntries, copiesSlot, ← hcond]
        split
        · rfl
        · rw [run_modify_bind, run_lift_bind, run_modify_bind,
            ← heap_giveUpSharing s (s.layoutOf a) slot info]
          rfl
  · rfl

end Store

end ScopeCall
