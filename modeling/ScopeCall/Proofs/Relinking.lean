import ScopeCall.Proofs.Marking

/-!
# `ScopeCall.Proofs.Relinking` — which links operations make

A layout is linked when its first scope is nested, when it is moved, and when a scope is put around it or taken
out above it. All other operations leave links as they are, whatever else they do to layouts. Functions and
call sites are no concern of any of them.

## Contents
- **Links that are made.** `Operation.links`.
- **Relinking.** `Store.KeepsLayouts`, and `Store.Relinks`: links are those there were, or those that may be made.
- **Contents and slots.** No links are made where slots are added, written, emptied or prepared for contexts.
- **Nesting.** `relinks_relinked`, and what is made up of it.
- **Operations.** `relinks_perform`.
-/

namespace ScopeCall

namespace Store

variable {s s₁ s₂ : Store} {l p : LayoutId} {a : ActivationId} {may : LayoutId → LayoutId → Prop}

/-! ## Links that are made -/

/-- The links that an operation makes, each of a layout to its parent. A layout that has a parent is not nested
    anew with another scope, and an operation that fails makes none. -/
def Operation.links (s : Store) : Operation → List (LayoutId × LayoutId)
  | .initializeEnclosing l parent => if (s.parent l).isNone then parent.toList.map (l, ·) else []
  | .newScope l enclosing _ =>
    if (s.parent l).isNone then enclosing.toList.map fun e => (l, s.layoutOf e) else []
  | .relink l parent => parent.toList.map (l, ·)
  | .setEnclosing a parent =>
    if (s.layout (s.layoutOf a)).kind.isSingleton then
      parent.toList.map fun e => (s.layoutOf a, s.layoutOf e)
    else []
  | .attach a inserted => match s.parent (s.layoutOf a) with
    | some old => [(s.layoutOf a, s.layoutOf inserted), (s.layoutOf inserted, old)]
    | none     => []
  | .detachEnclosing a => ((s.parent (s.layoutOf a)).bind s.parent).toList.map (s.layoutOf a, ·)
  | _ => []

/-! ## Relinking -/

/-- Layouts stay, each of its kind. -/
def KeepsLayouts (s s' : Store) : Prop := ∀ k, s.Allocated (.layout k) →
  s'.Allocated (.layout k) ∧ (s'.layout k).kind = (s.layout k).kind

theorem KeepsLayouts.trans (h : s.KeepsLayouts s₁) (h' : s₁.KeepsLayouts s₂) : s.KeepsLayouts s₂ := by
  intro k hk
  obtain ⟨hk₁, hkind⟩ := h k hk
  obtain ⟨hk₂, hkind'⟩ := h' k hk₁
  exact ⟨hk₂, hkind'.trans hkind⟩

/-- Layouts stay, each of its kind. A layout is linked as it was, or as it may be, or not any more; and nothing
    has become of functions and call sites. -/
structure Relinks (may : LayoutId → LayoutId → Prop) (s s' : Store) : Prop where
  callables : s'.callables = s.callables
  sites : s'.sites = s.sites
  layouts : s.KeepsLayouts s'
  link : ∀ k q, s.Allocated (.layout k) → (s'.layout k).enclosing = some q →
    (s.layout k).enclosing = some q ∨ may k q

namespace Relinks

theorem of_layout (hcallables : s₁.callables = s.callables) (hsites : s₁.sites = s.sites)
    (hsize : s₁.layouts.size = s.layouts.size) (hkind : ∀ k, (s₁.layout k).kind = (s.layout k).kind)
    (hlink : ∀ k, (s₁.layout k).enclosing = (s.layout k).enclosing) : s.Relinks may s₁ where
  callables := hcallables
  sites := hsites
  layouts k hk := ⟨Nat.lt_of_lt_of_eq hk hsize.symm, hkind k⟩
  link k _ _ hq := Or.inl ((hlink k).symm.trans hq)

/-- Nothing has become of layouts. -/
theorem of_eq (hcallables : s₁.callables = s.callables) (hsites : s₁.sites = s.sites)
    (hlayouts : s₁.layouts = s.layouts) : s.Relinks may s₁ := by
  have hlayout : s₁.layout = s.layout := by
    unfold layout
    rw [hlayouts]
  exact of_layout hcallables hsites (by rw [hlayouts]) (fun k => by rw [hlayout]) fun k => by rw [hlayout]

theorem refl (s : Store) : s.Relinks may s := of_eq rfl rfl rfl

theorem trans (h : s.Relinks may s₁) (h' : s₁.Relinks may s₂) : s.Relinks may s₂ where
  callables := h'.callables.trans h.callables
  sites := h'.sites.trans h.sites
  layouts := h.layouts.trans h'.layouts
  link k q hk hq := (h'.link k q (h.layouts k hk).1 hq).elim (h.link k q hk) Or.inr

end Relinks

theorem Enlarges.relinks (h : s.Enlarges s₁) : s.Relinks may s₁ :=
  .of_layout h.rest.sameCalls.callables h.rest.sameCalls.sites h.size h.kind h.enclosing

theorem Swept.relinks (h : s.Swept s₁) : s.Relinks may s₁ := (Enlarges.swept h).relinks

theorem Notes.relinks (h : s.Notes s₁) : s.Relinks may s₁ :=
  .of_layout (by rw [h.rest]) (by rw [h.rest]) h.size (fun k => by rw [h.layout]) fun k => by rw [h.layout]

/-- One layout has changed, but for its kind. -/
theorem relinks_modifyLayout (s : Store) (l : LayoutId) {f : Layout → Layout}
    (hkind : (f (s.layout l)).kind = (s.layout l).kind)
    (hlink : ∀ q, (f (s.layout l)).enclosing = some q → (s.layout l).enclosing = some q ∨ may l q) :
    s.Relinks may (s.modifyLayout l f) where
  callables := rfl
  sites := rfl
  layouts k hk := ⟨Nat.lt_of_lt_of_eq hk Array.size_modify.symm,
    s.layout_modifyLayout_congr Layout.kind l k f hkind⟩
  link k q _ hq := by
    rw [layout_modifyLayout] at hq
    split at hq
    · rename_i hk
      rw [hk.1]
      exact hlink q hq
    · exact Or.inl hq

/-! ## Contents and slots -/

theorem relinks_setContent (s : Store) (a : ActivationId) (slot : Nat) (c : SlotContent) :
    s.Relinks may (s.setContent a slot c) := .of_eq rfl rfl rfl

theorem relinks_findOrAddSlot (s : Store) (l : LayoutId) (n : Name) :
    s.Relinks may ((findOrAddSlot l n).run s).2 := (findOrAddSlot_spec s l n).1.relinks

theorem relinks_slotted (s : Store) (l : LayoutId) (fs : List Formal) : s.Relinks may (s.slotted l fs) := by
  induction fs generalizing s with
  | nil => exact .refl s
  | cons f fs ih => exact (relinks_findOrAddSlot s l f.name).trans (ih _)

theorem relinks_store (s : Store) (a : ActivationId) (slot : Nat) (v : Value) :
    s.Relinks may ((store a slot v).run s).2 := by
  rw [store_run]
  split
  · exact relinks_setContent s a slot _
  · exact (Enlarges.recordWrite s _ slot (some v)).relinks.trans (relinks_setContent _ a slot _)

theorem relinks_write (s : Store) (a : ActivationId) (slot : Nat) (v : Value) (nonLocal : Bool) :
    s.Relinks may ((write a slot v nonLocal).run.run s).2 := by
  rw [write_run]
  split
  · exact .refl s
  · rename_i info _
    have hstored : s.Relinks may ((store a slot v).run (s.noted a v)).2 :=
      (Enlarges.noted s a v).relinks.trans (relinks_store _ a slot v)
    generalize (store a slot v).run (s.noted a v) = result at hstored ⊢
    rcases result with ⟨filled, s₁⟩
    refine Relinks.trans ?_ (Enlarges.noteWrite _ info nonLocal _).relinks
    split
    · exact hstored.trans (swept_invalidateNames s₁ _ _).relinks
    · exact hstored

theorem relinks_bindName (s : Store) (a : ActivationId) (n : Name) (v : Value) (nonLocal : Bool) :
    s.Relinks may ((bindName a n v nonLocal).run.run s).2 := by
  rw [bindName_run]
  exact (relinks_findOrAddSlot s _ n).trans (relinks_write _ a _ v nonLocal)

theorem relinks_empty (s : Store) (a : ActivationId) (slot : Nat) :
    s.Relinks may ((empty a slot).run s).2 := by
  rw [empty_run]
  refine Relinks.trans ?_ (Enlarges.recordWrite _ _ slot none).relinks
  split
  · exact .refl s
  · exact relinks_setContent s a slot _

theorem relinks_remove (s : Store) (a : ActivationId) (n : Name) :
    s.Relinks may ((remove a n).run s).2 := by
  rw [remove_run]
  split
  · exact .refl s
  · split
    · exact .refl s
    · exact ((relinks_empty s a _).trans (Enlarges.noteWrite _ _ _ _).relinks).trans
        (swept_invalidateNames _ _ _).relinks

theorem relinks_giveUpSharing (s : Store) (l : LayoutId) (slot : Nat) (info : SlotInfo) :
    s.Relinks may (s.giveUpSharing l slot info) := by
  have hinvalidate : ∀ (s : Store) g, s.Relinks may (s.invalidate g) := fun s g => .of_eq rfl rfl rfl
  have hdrop : ∀ s : Store, s.Relinks may (s.dropStable l slot) := by
    intro s
    unfold dropStable
    split
    · exact .refl s
    · have hgive : s.Relinks may (s.modifySlot l slot (·.giveUp)) :=
        (Enlarges.modifySlot s l slot (f := (·.giveUp)) fun _ => rfl).relinks
      dsimp only
      split
      · exact hgive
      · exact hgive.trans (.of_eq rfl rfl rfl)
  exact ((hinvalidate s _).trans (hdrop _)).trans (hinvalidate _ _)

theorem relinks_writeInContext (s : Store) (a : ActivationId) (slot : Nat) (v : Value) :
    s.Relinks may ((writeInContext a slot v).run.run s).2 := by
  rw [writeInContext_run]
  split
  · exact .refl s
  · split
    · exact relinks_write s a slot v false
    · split
      · refine Relinks.trans ?_ (relinks_setContent _ a slot _)
        split
        · exact .refl s
        · exact relinks_giveUpSharing s _ slot _
      · exact .refl s

theorem relinks_fanOutSlot (s : Store) (a : ActivationId) (slot : Nat) (contexts : List Nat) (replicate : Bool) :
    s.Relinks may ((fanOutSlot a slot contexts replicate).run.run s).2 := by
  rw [fanOutSlot_run]
  split
  · split
    · exact .refl s
    · split
      · exact .refl s
      · have hheap : ∀ (s : Store) heap, s.Relinks may { s with heap } := fun s heap => .of_eq rfl rfl rfl
        exact ((relinks_giveUpSharing s _ slot _).trans (hheap _ _)).trans (relinks_setContent _ a slot _)
  · exact .refl s

/-! ## Nesting -/

/-- A layout is made after all others, and they are as they were. -/
theorem relinks_newLayout (s : Store) (label : String) (kind : LayoutKind) (policy : BindingPolicy) :
    s.Relinks may ((newLayout label kind policy).run s).2 := by
  have hold : ∀ k, s.Allocated (.layout k) → ((newLayout label kind policy).run s).2.layout k = s.layout k :=
    fun k hk => (layout_addLayout _ _ k).trans (if_neg (Nat.ne_of_lt hk))
  refine ⟨rfl, rfl, fun k hk => ⟨?_, congrArg Layout.kind (hold k hk)⟩, fun k q hk hq => Or.inl ?_⟩
  · exact Nat.lt_of_lt_of_eq (Nat.lt_succ_of_lt hk) (Array.size_push _).symm
  · rwa [hold k hk] at hq

/-- **A layout is linked to another parent**, or to none. -/
theorem relinks_relinked (s : Store) (l : LayoutId) {parent : Option LayoutId}
    (h : ∀ q, parent = some q → may l q) : s.Relinks may (s.relinked l parent) := by
  unfold relinked
  have hguards : s.Relinks may ((s.invalidate (s.layout l).enclosingGuard).addGuard
      ((s.layout l).label ++ " enclosing")) := .of_eq rfl rfl rfl
  exact hguards.trans (relinks_modifyLayout _ l rfl fun q hq => Or.inr (h q hq))

theorem relinks_addChild (s : Store) (p l : LayoutId) : s.Relinks may (s.addChild p l) :=
  relinks_modifyLayout s p (addChild_part _ (fun _ _ => rfl) _ l) fun _ hq =>
    Or.inl ((addChild_part Layout.enclosing (fun _ _ => rfl) _ l).symm.trans hq)

theorem relinks_removeChild (s : Store) (p l : LayoutId) : s.Relinks may (s.removeChild p l) :=
  relinks_modifyLayout s p rfl fun _ => Or.inl

theorem relinks_linked (s : Store) (h : may l p) : s.Relinks may (s.linked l p) :=
  (relinks_relinked s l fun _ hq => Option.some.inj hq ▸ h).trans (relinks_addChild _ p l)

theorem relinks_rehung (s : Store) (l : LayoutId) {parent : Option LayoutId}
    (h : ∀ q, parent = some q → may l q) : s.Relinks may (s.rehung l parent) := by
  have hunhooked : s.Relinks may (s.unhooked l parent) := by
    unfold unhooked
    split
    · exact (relinks_relinked s l h).trans (relinks_removeChild _ _ l)
    · exact relinks_relinked s l h
  unfold rehung
  split
  · exact hunhooked.trans (relinks_addChild _ _ l)
  · exact hunhooked

theorem relinks_spliced (s : Store) {inserted old : LayoutId} (h : may l inserted) (h' : may inserted old) :
    s.Relinks may (s.spliced l inserted old) := by
  have hsome : ∀ (s : Store) {k q : LayoutId}, may k q → s.Relinks may (s.relinked k (some q)) :=
    fun s k q hmay => relinks_relinked s k fun _ hq => Option.some.inj hq ▸ hmay
  have hlinks := (hsome s h').trans (hsome _ h)
  exact ((hlinks.trans (relinks_addChild _ inserted l)).trans (relinks_removeChild _ old l)).trans
    (relinks_addChild _ old inserted)

theorem relinks_bypassed (s : Store) (l old : LayoutId) {grandparent : Option LayoutId}
    (h : ∀ q, grandparent = some q → may l q) : s.Relinks may (s.bypassed l old grandparent) := by
  have hnone : ∀ s : Store, s.Relinks may (s.relinked old none) := fun s =>
    relinks_relinked s old fun _ hq => by cases hq
  have hremoved := ((relinks_relinked s l h).trans (hnone _)).trans (relinks_removeChild _ old l)
  unfold bypassed
  dsimp only
  split
  · exact hremoved
  · exact (hremoved.trans (relinks_removeChild _ _ old)).trans (relinks_addChild _ _ l)

theorem relinks_initializeEnclosing (s : Store) (l : LayoutId) {parent : Option LayoutId}
    (h : s.parent l = none → ∀ q, parent = some q → may l q) :
    s.Relinks may ((initializeEnclosing l parent).run.run s).2 := by
  rw [initializeEnclosing_run]
  split
  · rename_i p hnone
    exact relinks_linked s (h hnone p rfl)
  · split <;> exact .refl s

theorem relinks_emptied (s : Store) (l : LayoutId) (i n : Nat) : s.Relinks may (s.emptied l i n) := by
  induction n generalizing s i with
  | zero => exact .refl s
  | succ n ih =>
      rw [emptied_succ]
      exact (Enlarges.recordWrite s l i none).relinks.trans (ih _ (i + 1))

theorem relinks_enter (s : Store) (l : LayoutId) (enclosing : Option ActivationId) (depth : Nat) :
    s.Relinks may ((enter l enclosing depth).run.run s).2 := by
  have hjoined : s.Relinks may (s.joined l enclosing depth) := .of_eq rfl rfl rfl
  have hclaimed : s.Relinks may (s.claimed l enclosing depth) :=
    hjoined.trans (relinks_modifyLayout _ l rfl fun _ => Or.inl)
  rw [enter_run]
  split
  · split
    · exact .of_eq rfl rfl rfl
    · dsimp only
      split
      · exact (hclaimed.trans (relinks_emptied _ l _ _)).trans (swept_invalidateAll _ l).relinks
      · exact hclaimed
  · exact hjoined

/-- **A new scope nests its layout** only if the layout has no parent yet. -/
theorem relinks_newScope (s : Store) (l : LayoutId) (enclosing : Option ActivationId) (depth : Nat)
    (h : s.parent l = none → ∀ e, enclosing = some e → may l (s.layoutOf e)) :
    s.Relinks may ((newScope l enclosing depth).run.run s).2 := by
  have hlink : s.Relinks may ((initializeEnclosing l (enclosing.map s.layoutOf)).run.run s).2 := by
    refine relinks_initializeEnclosing s l fun hnone q hq => ?_
    obtain ⟨e, he, rfl⟩ := Option.map_eq_some_iff.1 hq
    exact h hnone e he
  rw [newScope_run]
  split
  · exact relinks_enter s l enclosing depth
  · generalize (initializeEnclosing l (enclosing.map s.layoutOf)).run.run s = linked at hlink ⊢
    rcases linked with ⟨e | _, s₁⟩
    · exact hlink
    · exact hlink.trans (relinks_enter s₁ l enclosing depth)

theorem relinks_setEnclosingLink (s : Store) (a : ActivationId) (parent : Option ActivationId) :
    s.Relinks may (s.setEnclosingLink a parent) := .of_eq rfl rfl rfl

theorem relinks_attach (s : Store) (a inserted : ActivationId)
    (h : ∀ link ∈ (Operation.attach a inserted).links s, may link.1 link.2) :
    s.Relinks may ((attach a inserted).run.run s).2 := by
  unfold Operation.links at h
  dsimp only at h
  rw [attach_run]
  split
  · exact .refl s
  · rename_i old hold
    rw [hold] at h
    obtain ⟨hmay, hmay', -⟩ : may (s.layoutOf a) (s.layoutOf inserted) ∧ may (s.layoutOf inserted) old ∧ _ := by
      simpa only [List.forall_mem_cons] using h
    dsimp only
    have hcleared : s.Relinks may (s.cleared (s.layoutOf a) (s.layoutOf inserted)) :=
      (swept_invalidateAll s _).relinks.trans (swept_invalidateNames _ _ _).relinks
    generalize s.cleared (s.layoutOf a) (s.layoutOf inserted) = s₁ at hcleared ⊢
    have hinherited : s₁.Relinks may (s₁.inherited (s.layoutOf inserted) old) :=
      relinks_modifyLayout s₁ _ rfl fun _ => Or.inl
    have hspliced := (hcleared.trans hinherited).trans (relinks_spliced _ hmay hmay')
    exact (hspliced.trans (relinks_setEnclosingLink _ a _)).trans (relinks_setEnclosingLink _ inserted _)

theorem relinks_detachEnclosing (s : Store) (a : ActivationId)
    (h : ∀ link ∈ (Operation.detachEnclosing a).links s, may link.1 link.2) :
    s.Relinks may ((detachEnclosing a).run.run s).2 := by
  unfold Operation.links at h
  dsimp only at h
  rw [detachEnclosing_run]
  split
  · exact .refl s
  · rename_i old hold
    rw [hold] at h
    dsimp only
    have hbypassed : s.Relinks may ((s.invalidateNames old (s.layout old).identifiers).bypassed (s.layoutOf a) old
        (s.parent old)) := by
      refine (swept_invalidateNames s _ _).relinks.trans (relinks_bypassed _ _ old fun q hq => ?_)
      exact h (_, q) (List.mem_map.2 ⟨q, Option.mem_toList.2 hq, rfl⟩)
    have hlink := hbypassed.trans (relinks_setEnclosingLink _ a none)
    split
    · exact hlink
    · exact (hlink.trans (relinks_setEnclosingLink _ _ none)).trans (relinks_setEnclosingLink _ a _)

/-! ## Operations -/

/-- **An operation makes its own links only.** -/
theorem relinks_perform (s : Store) (op : Operation) (h : ∀ link ∈ op.links s, may link.1 link.2) :
    s.Relinks may (op.perform s) := by
  have hparent : ∀ {k : LayoutId} {parent : Option LayoutId},
      (∀ link ∈ parent.toList.map (k, ·), may link.1 link.2) → ∀ q, parent = some q → may k q :=
    fun hlinks q hq => hlinks (_, q) (List.mem_map.2 ⟨q, Option.mem_toList.2 hq, rfl⟩)
  cases op with
  | newLayout label kind policy =>
      exact (relinks_newLayout s label kind policy).trans (.of_eq rfl rfl rfl)
  | initializeEnclosing l parent =>
      refine relinks_initializeEnclosing s l fun hnone => hparent ?_
      unfold Operation.links at h
      dsimp only at h
      rwa [hnone] at h
  | newScope l enclosing depth =>
      have hnew : s.Relinks may _ := relinks_newScope s l enclosing depth fun hnone e he => by
        unfold Operation.links at h
        dsimp only at h
        rw [hnone] at h
        exact h (_, _) (List.mem_map.2 ⟨e, Option.mem_toList.2 he, rfl⟩)
      rw [Operation.perform]
      generalize (Store.newScope l enclosing depth).run.run s = result at hnew ⊢
      rcases result with ⟨e | a, s₁⟩
      · exact hnew
      · exact hnew.trans (.of_eq rfl rfl rfl)
  | relink l parent =>
      rw [Operation.perform, relinkTo_run]
      exact (swept_invalidateAll s l).relinks.trans (relinks_rehung _ l (hparent h))
  | setEnclosing a parent =>
      unfold Operation.links at h
      dsimp only at h
      rw [Operation.perform, setEnclosing_run]
      split
      · rename_i hk
        rw [if_pos hk] at h
        refine ((swept_invalidateAll s _).relinks.trans (relinks_rehung _ _ fun q hq => ?_)).trans
          (relinks_setEnclosingLink _ a parent)
        obtain ⟨e, rfl, rfl⟩ := Option.map_eq_some_iff.1 hq
        exact h (_, _) List.mem_cons_self
      · exact .refl s
  | attach a inserted => exact relinks_attach s a inserted h
  | detachEnclosing a => exact relinks_detachEnclosing s a h
  | findOrAddSlot l n => exact relinks_findOrAddSlot s l n
  | invalidateNames l names => exact (swept_invalidateNames s l names).relinks
  | invalidateAll l => exact (swept_invalidateAll s l).relinks
  | define a n v | assignNonLocal a n v => exact relinks_bindName s a n v _
  | setActiveBinding a n g => exact relinks_bindName s a n _ false
  | write a slot v nonLocal => exact relinks_write s a slot v nonLocal
  | remove a n => exact relinks_remove s a n
  | resolve a n => exact (Notes.resolve s a n).relinks
  | cachedRead c a => exact (Notes.cachedRead s c a).relinks
  | writeInContext a slot v => exact relinks_writeInContext s a slot v
  | fanOutSlot a slot contexts replicate => exact relinks_fanOutSlot s a slot contexts replicate
  | fanOutAll a contexts replicate =>
      exact fanOutAll_run (P := s.Relinks may) s a contexts replicate
        (fun slot s₁ h₁ => h₁.trans (relinks_fanOutSlot s₁ a slot contexts replicate)) (.refl s)
  | newCache n | registerContexts additional | enterContext context | leaveContext previous
  | markIrregular a | cleanFanOut a contexts => exact .of_eq rfl rfl rfl

end Store

end ScopeCall
