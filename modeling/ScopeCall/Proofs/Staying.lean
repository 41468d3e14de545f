import ScopeCall.Proofs.Closing
import ScopeCall.Proofs.Relinking

/-!
# `ScopeCall.Proofs.Staying` — what has nothing to do with calls

What calls keep are the nodes of call sites, the functions and their bodies, and the demands for callers. Operations
on scopes leave all of it alone, and let go of nothing that is held. So does the evaluation of arguments, and so
does matching them.

## Contents
- **Staying.** `Store.KeepsCalls`.
- **Scopes.** Slots, contents and nesting.
- **Operations.** `keepsCalls_perform`.
- **Evaluation.** `steady_keepsCalls`, and matching.
-/

namespace ScopeCall

namespace Store

variable {s s₁ s₂ : Store}

/-! ## Staying -/

theorem callable_congr (h : s₁.callables = s.callables) : s₁.callable = s.callable := by
  unfold callable
  rw [h]

theorem target_congr (h : s₁.targets = s.targets) : s₁.target = s.target := by
  unfold target
  rw [h]

/-- Call sites, functions, bodies and demands are as they were, and what was held still is. -/
structure KeepsCalls (s s' : Store) : Prop where
  sites : s'.sites = s.sites
  callables : s'.callables = s.callables
  targets : s'.targets = s.targets
  demands : s'.demands = s.demands
  held : ∀ r ∈ s.roots, r ∈ s'.roots

namespace KeepsCalls

/-- Nothing is held or let go of. -/
theorem of_eq (hsites : s₁.sites = s.sites) (hcallables : s₁.callables = s.callables)
    (htargets : s₁.targets = s.targets) (hdemands : s₁.demands = s.demands) (hstack : s₁.stack = s.stack)
    (hhandles : s₁.handles = s.handles) : s.KeepsCalls s₁ where
  sites := hsites
  callables := hcallables
  targets := htargets
  demands := hdemands
  held r hr := by
    rw [roots] at hr ⊢
    rwa [hstack, hhandles]

theorem refl (s : Store) : s.KeepsCalls s := .of_eq rfl rfl rfl rfl rfl rfl

theorem trans (h : s.KeepsCalls s₁) (h' : s₁.KeepsCalls s₂) : s.KeepsCalls s₂ where
  sites := h'.sites.trans h.sites
  callables := h'.callables.trans h.callables
  targets := h'.targets.trans h.targets
  demands := h'.demands.trans h.demands
  held r hr := h'.held r (h.held r hr)

theorem hold (s : Store) (rs : List Ref) : s.KeepsCalls (s.hold rs) where
  sites := rfl
  callables := rfl
  targets := rfl
  demands := rfl
  held _ hr := (List.mem_append.1 hr).elim
    (fun hstack => List.mem_append_left _ (List.mem_append_right _ hstack)) (List.mem_append_right _)

theorem acquire (s : Store) (rs : List Ref) : s.KeepsCalls (s.acquire rs) where
  sites := rfl
  callables := rfl
  targets := rfl
  demands := rfl
  held _ hr := (List.mem_append.1 hr).elim (List.mem_append_left _)
    fun hhandles => List.mem_append_right _ (List.mem_append_right _ hhandles)

end KeepsCalls

theorem OnlyScopes.keepsCalls (h : s.OnlyScopes s₁) : s.KeepsCalls s₁ :=
  .of_eq (h.part Store.sites fun _ _ => rfl) (h.part Store.callables fun _ _ => rfl)
    (h.part Store.targets fun _ _ => rfl) (h.part Store.demands fun _ _ => rfl)
    (h.part Store.stack fun _ _ => rfl) (h.part Store.handles fun _ _ => rfl)

theorem Enlarges.keepsCalls (h : s.Enlarges s₁) : s.KeepsCalls s₁ := h.rest.keepsCalls

theorem Swept.keepsCalls (h : s.Swept s₁) : s.KeepsCalls s₁ := h.onlyScopes.keepsCalls

theorem Notes.keepsCalls (h : s.Notes s₁) : s.KeepsCalls s₁ := by
  rw [h.rest]
  exact .of_eq rfl rfl rfl rfl rfl rfl

/-! ## Scopes -/

theorem keepsCalls_setContent (s : Store) (a : ActivationId) (slot : Nat) (c : SlotContent) :
    s.KeepsCalls (s.setContent a slot c) := .of_eq rfl rfl rfl rfl rfl rfl

theorem keepsCalls_modifyLayout (s : Store) (l : LayoutId) (f : Layout → Layout) :
    s.KeepsCalls (s.modifyLayout l f) := .of_eq rfl rfl rfl rfl rfl rfl

theorem keepsCalls_findOrAddSlot (s : Store) (l : LayoutId) (n : Name) :
    s.KeepsCalls ((findOrAddSlot l n).run s).2 := (onlyScopes_findOrAddSlot s l n).keepsCalls

theorem keepsCalls_write (s : Store) (a : ActivationId) (slot : Nat) (v : Value) (nonLocal : Bool) :
    s.KeepsCalls ((write a slot v nonLocal).run.run s).2 := (onlyScopes_write s a slot v nonLocal).keepsCalls

theorem keepsCalls_bindName (s : Store) (a : ActivationId) (n : Name) (v : Value) (nonLocal : Bool) :
    s.KeepsCalls ((bindName a n v nonLocal).run.run s).2 := by
  rw [bindName_run]
  exact (keepsCalls_findOrAddSlot s _ n).trans (keepsCalls_write _ a _ v nonLocal)

theorem keepsCalls_remove (s : Store) (a : ActivationId) (n : Name) :
    s.KeepsCalls ((remove a n).run s).2 := by
  have hempty : ∀ slot, s.KeepsCalls ((empty a slot).run s).2 := by
    intro slot
    rw [empty_run]
    refine KeepsCalls.trans ?_ (Enlarges.recordWrite _ _ slot none).keepsCalls
    split
    · exact .refl s
    · exact keepsCalls_setContent s a slot _
  rw [remove_run]
  split
  · exact .refl s
  · split
    · exact .refl s
    · exact ((hempty _).trans (Enlarges.noteWrite _ _ _ _).keepsCalls).trans
        (swept_invalidateNames _ _ _).keepsCalls

theorem keepsCalls_giveUpSharing (s : Store) (l : LayoutId) (slot : Nat) (info : SlotInfo) :
    s.KeepsCalls (s.giveUpSharing l slot info) := by
  have hinvalidate : ∀ (s : Store) g, s.KeepsCalls (s.invalidate g) := fun s g => .of_eq rfl rfl rfl rfl rfl rfl
  have hdrop : ∀ s : Store, s.KeepsCalls (s.dropStable l slot) := by
    intro s
    unfold dropStable
    split
    · exact .refl s
    · dsimp only
      split <;> exact .of_eq rfl rfl rfl rfl rfl rfl
  exact ((hinvalidate s _).trans (hdrop _)).trans (hinvalidate _ _)

theorem keepsCalls_writeInContext (s : Store) (a : ActivationId) (slot : Nat) (v : Value) :
    s.KeepsCalls ((writeInContext a slot v).run.run s).2 := by
  rw [writeInContext_run]
  split
  · exact .refl s
  · split
    · exact keepsCalls_write s a slot v false
    · split
      · refine KeepsCalls.trans ?_ (keepsCalls_setContent _ a slot _)
        split
        · exact .refl s
        · exact keepsCalls_giveUpSharing s _ slot _
      · exact .refl s

theorem keepsCalls_fanOutSlot (s : Store) (a : ActivationId) (slot : Nat) (contexts : List Nat)
    (replicate : Bool) : s.KeepsCalls ((fanOutSlot a slot contexts replicate).run.run s).2 := by
  rw [fanOutSlot_run]
  split
  · split
    · exact .refl s
    · split
      · exact .refl s
      · have hheap : ∀ (s : Store) heap, s.KeepsCalls { s with heap } := fun s heap =>
          .of_eq rfl rfl rfl rfl rfl rfl
        exact ((keepsCalls_giveUpSharing s _ slot _).trans (hheap _ _)).trans (keepsCalls_setContent _ a slot _)
  · exact .refl s

/-- Links between layouts change layouts and guards. -/
theorem keepsCalls_relinked (s : Store) (l : LayoutId) (parent : Option LayoutId) :
    s.KeepsCalls (s.relinked l parent) := .of_eq rfl rfl rfl rfl rfl rfl

theorem keepsCalls_setEnclosingLink (s : Store) (a : ActivationId) (parent : Option ActivationId) :
    s.KeepsCalls (s.setEnclosingLink a parent) := .of_eq rfl rfl rfl rfl rfl rfl

theorem keepsCalls_addChild (s : Store) (p l : LayoutId) : s.KeepsCalls (s.addChild p l) :=
  .of_eq rfl rfl rfl rfl rfl rfl

theorem keepsCalls_removeChild (s : Store) (p l : LayoutId) : s.KeepsCalls (s.removeChild p l) :=
  .of_eq rfl rfl rfl rfl rfl rfl

theorem keepsCalls_relinkTo (s : Store) (l : LayoutId) (parent : Option LayoutId) :
    s.KeepsCalls ((relinkTo l parent).run s).2 := by
  rw [relinkTo_run]
  refine (swept_invalidateAll s l).keepsCalls.trans ?_
  generalize s.invalidateAll l = s₁
  have hunhooked : s₁.KeepsCalls (s₁.unhooked l parent) := by
    unfold unhooked
    split
    · exact (keepsCalls_relinked s₁ l parent).trans (keepsCalls_removeChild _ _ l)
    · exact keepsCalls_relinked s₁ l parent
  unfold rehung
  split
  · exact hunhooked.trans (keepsCalls_addChild _ _ l)
  · exact hunhooked

theorem keepsCalls_spliced (s : Store) (l inserted old : LayoutId) : s.KeepsCalls (s.spliced l inserted old) := by
  have hlinks := (keepsCalls_relinked s inserted (some old)).trans (keepsCalls_relinked _ l (some inserted))
  exact ((hlinks.trans (keepsCalls_addChild _ inserted l)).trans (keepsCalls_removeChild _ old l)).trans
    (keepsCalls_addChild _ old inserted)

theorem keepsCalls_bypassed (s : Store) (l old : LayoutId) (grandparent : Option LayoutId) :
    s.KeepsCalls (s.bypassed l old grandparent) := by
  have hremoved := ((keepsCalls_relinked s l grandparent).trans (keepsCalls_relinked _ old none)).trans
    (keepsCalls_removeChild _ old l)
  unfold bypassed
  dsimp only
  split
  · exact hremoved
  · exact (hremoved.trans (keepsCalls_removeChild _ _ old)).trans (keepsCalls_addChild _ _ l)

theorem keepsCalls_newScope (s : Store) (l : LayoutId) (enclosing : Option ActivationId) (depth : Nat) :
    s.KeepsCalls ((newScope l enclosing depth).run.run s).2 := (onlyScopes_newScope s l enclosing depth).keepsCalls

theorem keepsCalls_attach (s : Store) (a inserted : ActivationId) :
    s.KeepsCalls ((attach a inserted).run.run s).2 := by
  rw [attach_run]
  split
  · exact .refl s
  · rename_i old _
    have hcleared : s.KeepsCalls (s.cleared (s.layoutOf a) (s.layoutOf inserted)) :=
      (swept_invalidateAll s _).keepsCalls.trans (swept_invalidateNames _ _ _).keepsCalls
    dsimp only
    generalize s.cleared (s.layoutOf a) (s.layoutOf inserted) = s₁ at hcleared ⊢
    have hinherited : s₁.KeepsCalls (s₁.inherited (s.layoutOf inserted) old) := keepsCalls_modifyLayout s₁ _ _
    have hspliced := (hcleared.trans hinherited).trans
      (keepsCalls_spliced _ (s.layoutOf a) (s.layoutOf inserted) old)
    exact (hspliced.trans (keepsCalls_setEnclosingLink _ a _)).trans (keepsCalls_setEnclosingLink _ inserted _)

theorem keepsCalls_detachEnclosing (s : Store) (a : ActivationId) :
    s.KeepsCalls ((detachEnclosing a).run.run s).2 := by
  rw [detachEnclosing_run]
  split
  · exact .refl s
  · rename_i old _
    dsimp only
    have hbypassed := (swept_invalidateNames s old (s.layout old).identifiers).keepsCalls.trans
      (keepsCalls_bypassed _ (s.layoutOf a) old (s.parent old))
    have hlink := hbypassed.trans (keepsCalls_setEnclosingLink _ a none)
    split
    · exact hlink
    · exact (hlink.trans (keepsCalls_setEnclosingLink _ _ none)).trans (keepsCalls_setEnclosingLink _ a _)

/-! ## Operations -/

/-- **No operation on scopes has to do with calls**, and none lets go of what is held. -/
theorem keepsCalls_perform (s : Store) (op : Operation) : s.KeepsCalls (op.perform s) := by
  cases op with
  | newLayout label kind policy =>
      have hnew : s.KeepsCalls ((Store.newLayout label kind policy).run s).2 := .of_eq rfl rfl rfl rfl rfl rfl
      exact hnew.trans (.acquire _ _)
  | newScope l enclosing depth =>
      have hnew := keepsCalls_newScope s l enclosing depth
      rw [Operation.perform]
      generalize (Store.newScope l enclosing depth).run.run s = result at hnew ⊢
      rcases result with ⟨e | a, s₁⟩
      · exact hnew
      · exact hnew.trans (.acquire _ _)
  | newCache n =>
      have hnew : s.KeepsCalls ((Store.newCache n).run s).2 := .of_eq rfl rfl rfl rfl rfl rfl
      exact hnew.trans (.acquire _ _)
  | initializeEnclosing l parent => exact (onlyScopes_initializeEnclosing s l parent).1.keepsCalls
  | relink l parent => exact keepsCalls_relinkTo s l parent
  | setEnclosing a parent =>
      rw [Operation.perform, setEnclosing_run]
      split
      · have hrelinked := keepsCalls_relinkTo s (s.layoutOf a) (parent.map s.layoutOf)
        rw [relinkTo_run] at hrelinked
        exact hrelinked.trans (keepsCalls_setEnclosingLink _ a parent)
      · exact .refl s
  | attach a inserted => exact keepsCalls_attach s a inserted
  | detachEnclosing a => exact keepsCalls_detachEnclosing s a
  | findOrAddSlot l n => exact keepsCalls_findOrAddSlot s l n
  | invalidateNames l names => exact (swept_invalidateNames s l names).keepsCalls
  | invalidateAll l => exact (swept_invalidateAll s l).keepsCalls
  | define a n v | assignNonLocal a n v => exact keepsCalls_bindName s a n v _
  | setActiveBinding a n g => exact keepsCalls_bindName s a n _ false
  | write a slot v nonLocal => exact keepsCalls_write s a slot v nonLocal
  | remove a n => exact keepsCalls_remove s a n
  | resolve a n => exact (Notes.resolve s a n).keepsCalls
  | cachedRead c a => exact (Notes.cachedRead s c a).keepsCalls
  | writeInContext a slot v => exact keepsCalls_writeInContext s a slot v
  | fanOutSlot a slot contexts replicate => exact keepsCalls_fanOutSlot s a slot contexts replicate
  | fanOutAll a contexts replicate =>
      exact fanOutAll_run (P := s.KeepsCalls) s a contexts replicate
        (fun slot s₁ h₁ => h₁.trans (keepsCalls_fanOutSlot s₁ a slot contexts replicate)) (.refl s)
  | registerContexts additional | enterContext context | leaveContext previous | markIrregular a
  | cleanFanOut a contexts => exact .of_eq rfl rfl rfl rfl rfl rfl

/-! ## Evaluation -/

/-- Evaluating arguments looks names up, and holds what it finds. -/
theorem steady_keepsCalls {σ : Type} (getters : Getters σ) : EvalM.Steady getters KeepsCalls where
  refl := .refl
  trans := .trans
  hold s rs := .hold s rs
  cachedRead s c a := (Notes.cachedRead s c a).keepsCalls
  getter _ _ := .of_eq rfl rfl rfl rfl rfl rfl

theorem keepsCalls_runMatcher (matcher : Matcher) (c : CallableId) (supplied : SuppliedNames) (source : String)
    (allowReorder : Bool) (s : Store) :
    s.KeepsCalls ((runMatcher matcher c supplied source allowReorder).run.run s).2 := by
  cases matcher with
  | standard =>
      rw [runMatcher_standard]
      exact .refl s
  | recording =>
      rw [runMatcher_recording]
      exact .of_eq rfl rfl rfl rfl rfl rfl
  | fixed answer => exact .refl s
  | refusing message => exact .refl s

end Store

end ScopeCall
