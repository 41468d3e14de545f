import ScopeCall.Proofs.Remembering

/-!
# `ScopeCall.Proofs.Rewiring` — changes of links

Layouts are linked to their parents, which list them as children, and activations are linked in the same way.
Operations on the nesting change nothing else, so what layouts say stays as it was, and each trace that
goes along old links only.

## Contents
- **Links.** `Store.Rewires`: only links have changed. `Retraces.rewired`.
- **Children.** What each primitive change of links does.
-/

namespace ScopeCall

namespace Store

variable {s s₁ s₂ : Store} {alive : LayoutId → Prop} {a : ActivationId}

theorem layoutOf_congr (h : s₁.activations = s.activations) : s₁.layoutOf = s.layoutOf := by
  unfold layoutOf activation
  rw [h]

/-! ## Links -/

/-- Links and children have changed, and nothing else that lookups depend on. -/
structure Rewires (s s' : Store) : Prop where
  sizeLayouts : s'.layouts.size = s.layouts.size
  sizeActivations : s'.activations.size = s.activations.size
  activation : ∀ b, s'.activation b
    = { s.activation b with enclosing := (s'.activation b).enclosing }
  layout : ∀ k, s'.layout k = { s.layout k with
    enclosing := (s'.layout k).enclosing
    enclosingGuard := (s'.layout k).enclosingGuard
    children := (s'.layout k).children }
  stables : s'.stables = s.stables
  lookups : s'.lookups = s.lookups
  caches : s'.caches = s.caches
  contexts : s'.contexts = s.contexts

theorem Rewires.trans (h : s.Rewires s₁) (h' : s₁.Rewires s₂) : s.Rewires s₂ where
  sizeLayouts := h'.sizeLayouts.trans h.sizeLayouts
  sizeActivations := h'.sizeActivations.trans h.sizeActivations
  activation b := (h'.activation b).trans (by rw [h.activation b])
  layout k := (h'.layout k).trans (by rw [h.layout k])
  stables := h'.stables.trans h.stables
  lookups := h'.lookups.trans h.lookups
  caches := h'.caches.trans h.caches
  contexts := h'.contexts.trans h.contexts

theorem addChild_part {α : Type} (part : Layout → α)
    (h : ∀ (x : Layout) c, part { x with children := c } = part x) (x : Layout) (c : LayoutId) :
    part (x.addChild c) = part x := by
  unfold Layout.addChild
  split
  · rfl
  · exact h x _

/-- A change of links and children of one layout. -/
theorem rewires_modifyLayout (s : Store) (l : LayoutId) {f : Layout → Layout}
    (hf : ∀ x, f x = { x with
      enclosing := (f x).enclosing
      enclosingGuard := (f x).enclosingGuard
      children := (f x).children }) : s.Rewires (s.modifyLayout l f) := by
  refine ⟨Array.size_modify, rfl, fun _ => rfl, fun k => ?_, rfl, rfl, rfl, rfl⟩
  rw [layout_modifyLayout]
  split
  · rename_i hk
    rw [hk.1]
    exact hf _
  · rfl

theorem rewires_relinked (s : Store) (l : LayoutId) (parent : Option LayoutId) :
    s.Rewires (s.relinked l parent) := by
  unfold relinked
  refine Rewires.trans ?_ (rewires_modifyLayout _ l fun _ => rfl)
  exact ⟨rfl, rfl, fun _ => rfl, fun _ => rfl, rfl, rfl, rfl, rfl⟩

theorem rewires_addChild (s : Store) (p l : LayoutId) : s.Rewires (s.addChild p l) := by
  refine rewires_modifyLayout s p fun x => ?_
  unfold Layout.addChild
  split <;> rfl

theorem rewires_removeChild (s : Store) (p l : LayoutId) : s.Rewires (s.removeChild p l) :=
  rewires_modifyLayout s p fun _ => rfl

theorem rewires_setEnclosingLink (s : Store) (a : ActivationId) (parent : Option ActivationId) :
    s.Rewires (s.setEnclosingLink a parent) := by
  refine ⟨rfl, Array.size_modify, fun b => ?_, fun _ => rfl, rfl, rfl, rfl, rfl⟩
  unfold setEnclosingLink
  rw [activation_modifyActivation]
  split
  · rename_i hb
    rw [hb.1]
  · rfl

theorem layout_setEnclosingLink (s : Store) (a : ActivationId) (parent : Option ActivationId)
    (k : LayoutId) : (s.setEnclosingLink a parent).layout k = s.layout k := rfl

/-- Setting the link of an activation. -/
theorem enclosing_setEnclosingLink (ha : s.Allocated (.activation a)) (parent : Option ActivationId)
    (b : ActivationId) : ((s.setEnclosingLink a parent).activation b).enclosing
      = if b = a then parent else (s.activation b).enclosing := by
  unfold setEnclosingLink
  rw [activation_modifyActivation]
  by_cases hb : b = a
  · rw [if_pos ⟨hb, ha⟩, if_pos hb]
  · rw [if_neg fun hc => hb hc.1, if_neg hb]

section Rewired

variable (h : s.Rewires s₁)
include h

theorem Rewires.layoutOf (b : ActivationId) : s₁.layoutOf b = s.layoutOf b := by
  unfold Store.layoutOf
  rw [h.activation]

theorem Rewires.allocated_layout (k : LayoutId) :
    s₁.Allocated (.layout k) ↔ s.Allocated (.layout k) := by
  simp only [Allocated, h.sizeLayouts]

theorem Rewires.allocated_activation (b : ActivationId) :
    s₁.Allocated (.activation b) ↔ s.Allocated (.activation b) := by
  simp only [Allocated, h.sizeActivations]

theorem Rewires.stable (t : StableId) : s₁.stable t = s.stable t := by
  rw [Store.stable, h.stables, ← Store.stable]

theorem Rewires.view (k : LayoutId) (n : Name) : s₁.view k n = s.view k n :=
  view_of_layout n (by rw [h.layout k]) (by rw [h.layout k]) (funext h.stable)

theorem Rewires.retains : s.Retains s₁ :=
  .of_eq (fun k => (h.allocated_layout k).2) (fun k n => by rw [h.layout k]; rfl) h.lookups h.caches

theorem Rewires.current {b : ActivationId} (hb : s₁.Current b) : s.Current b := by
  obtain ⟨hb, hnamed⟩ := hb
  rw [h.layoutOf, h.layout] at hnamed
  exact ⟨(h.allocated_activation b).1 hb, hnamed⟩

theorem Rewires.current_of {b : ActivationId} (hb : s.Current b) : s₁.Current b := by
  refine ⟨(h.allocated_activation b).2 hb.allocated, ?_⟩
  rw [h.layoutOf, h.layout]
  exact hb.named

/-- New links have to go along with the activations, and to be registered. -/
theorem Nested.rewired (hn : s.Nested)
    (halong : ∀ b, s.Current b →
      (s₁.layout (s.layoutOf b)).enclosing = (s₁.activation b).enclosing.map s.layoutOf)
    (hacyclic : ∀ b, ¬ s₁.Inside b b)
    (hregistered : ∀ k p, (s₁.layout k).enclosing = some p → k ∈ (s₁.layout p).children) :
    s₁.Nested := by
  refine ⟨fun b hb => ?_, hacyclic, hregistered, fun k n hk => ?_, fun k b hb => ?_⟩
  · rw [h.layoutOf, halong b (h.current hb), funext h.layoutOf]
  · rw [h.layout] at hk
    obtain ⟨b, hb, hbk⟩ := hn.walked k n hk
    exact ⟨b, h.current_of hb, (h.layoutOf b).trans hbk⟩
  · rw [h.layout] at hb ⊢
    exact hn.claimed k b hb

end Rewired

/-- Traces are carried over a change of links where nothing is on record. -/
theorem Retraces.rewired {pending : LayoutId → Name → Prop} (h : s.Retraces alive pending)
    (hs : s.WellFormed) (hw : s.Rewires s₁) (hn : s₁.Nested)
    (hlink : ∀ k n, n ∈ (s.layout k).recorded →
      (s₁.layout k).enclosing = (s.layout k).enclosing) : s₁.Retraces alive pending := by
  refine h.convey hs hn hw.retains (fun t _ ht => ?_) fun n l r _ _ ht hf => ?_
  · rwa [stableValid, hw.stable] at ht
  · refine ht.map (fun k hk => ?_) (fun k => hlink k n) (fun _ => id)
      (fun k _ => Or.inl (hw.view k n)) hf
    rw [hw.layout k]
    exact hk

/-! ## Children -/

section Children

variable {l p : LayoutId}

theorem activations_relinked (s : Store) (l : LayoutId) (parent : Option LayoutId) :
    (s.relinked l parent).activations = s.activations := rfl

theorem activations_addChild (s : Store) (p l : LayoutId) :
    (s.addChild p l).activations = s.activations := rfl

theorem activations_removeChild (s : Store) (p l : LayoutId) :
    (s.removeChild p l).activations = s.activations := rfl

theorem enclosing_relinked (hl : s.Allocated (.layout l)) (parent : Option LayoutId) (k : LayoutId) :
    ((s.relinked l parent).layout k).enclosing
      = if k = l then parent else (s.layout k).enclosing := by
  unfold relinked
  rw [layout_modifyLayout]
  by_cases hk : k = l
  · rw [if_pos ⟨hk, hl⟩, if_pos hk]
    rfl
  · rw [if_neg fun hc => hk hc.1, if_neg hk]
    rfl

theorem children_relinked (parent : Option LayoutId) (k : LayoutId) :
    ((s.relinked l parent).layout k).children = (s.layout k).children :=
  layout_modifyLayout_congr _ Layout.children l k _ rfl

theorem enclosing_addChild (k : LayoutId) :
    ((s.addChild p l).layout k).enclosing = (s.layout k).enclosing :=
  layout_modifyLayout_congr s Layout.enclosing p k _ (addChild_part _ (fun _ _ => rfl) _ _)

theorem enclosing_removeChild (k : LayoutId) :
    ((s.removeChild p l).layout k).enclosing = (s.layout k).enclosing :=
  layout_modifyLayout_congr s Layout.enclosing p k _ rfl

theorem mem_children_addChild (hp : s.Allocated (.layout p)) {k c : LayoutId} :
    c ∈ ((s.addChild p l).layout k).children ↔ c ∈ (s.layout k).children ∨ k = p ∧ c = l := by
  rw [Store.addChild, layout_modifyLayout]
  by_cases hk : k = p
  · subst hk
    rw [if_pos ⟨rfl, hp⟩, Layout.addChild]
    split
    · rename_i hin
      constructor
      · exact Or.inl
      · rintro (hc | ⟨-, rfl⟩)
        · exact hc
        · simpa using hin
    · simp
  · rw [if_neg fun hc => hk hc.1]
    simp [hk]

/-- A child is removed from one parent only. -/
theorem mem_children_removeChild {k c : LayoutId} (hc : c ∈ (s.layout k).children)
    (hne : k ≠ p ∨ c ≠ l) : c ∈ ((s.removeChild p l).layout k).children := by
  rw [Store.removeChild, layout_modifyLayout]
  split
  · rename_i hk
    have hcl : c ≠ l := hne.resolve_left fun hnot => hnot hk.1
    simpa [Layout.removeChild, ← hk.1, hcl] using hc
  · exact hc

end Children

end Store

end ScopeCall
