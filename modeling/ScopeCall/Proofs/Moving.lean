import ScopeCall.Proofs.Nesting

/-!
# `ScopeCall.Proofs.Moving` — scopes that move together with their layouts

The one activation of a layout that admits no other can be moved, and its layout is moved with it. Lookups
that went through the old link are swept away first.

## Contents
- **Circles.** A link out of a scope closes no circle, unless it leads to a scope nested there.
- **Moving.** `retraces_setEnclosing`: nothing is left on record at the layout that is moved.
-/

namespace ScopeCall

namespace Store

variable {s s₁ s₂ : Store} {alive : LayoutId → Prop} {a : ActivationId}

/-- The activation alive of a layout that admits one is the only one that counts. -/
theorem Sound.eq_of_layoutOf (hs : s.Sound) (ha : s.Live (.activation a))
    (hk : (s.layout (s.layoutOf a)).kind.isSingleton = true) {b : ActivationId} (hb : s.Current b)
    (hba : s.layoutOf b = s.layoutOf a) : b = a := by
  have hnamed := hb.named
  rw [hba, (hs.current ha).named hk] at hnamed
  exact (Option.some.inj (hnamed hk)).symm

/-- Where scopes are nested as their layouts are, the layout around a live scope is the parent of its
    own. -/
theorem Nested.parent (h : s.Nested) (hs : s.Sound) (ha : s.Live (.activation a)) {o : ActivationId}
    (ho : (s.activation a).enclosing = some o) : s.parent (s.layoutOf a) = some (s.layoutOf o) := by
  have hlo := (ha.enclosing hs.wellFormed ho).layoutOf hs.wellFormed
  have hlive := (isLive_iff hs.wellFormed (hlo.allocated hs.wellFormed)).2 hlo
  unfold Store.parent
  rw [h.along a (hs.current ha), ho, Option.map_some, Option.bind_some, upgradeLayout, if_pos hlive]

/-! ## Circles -/

/-- After one link has been set, a scope is nested where it was, or where the new link leads. -/
theorem inside_of_link
    (hother : ∀ b, b ≠ a → (s₁.activation b).enclosing = (s.activation b).enclosing)
    (hfree : ∀ p, (s₁.activation a).enclosing = some p → p ≠ a ∧ ¬ s.Inside p a)
    {b c : ActivationId} (h : s₁.Inside b c) :
    b ≠ a ∧ s.Inside b c ∨ (b = a ∨ s.Inside b a)
      ∧ ∃ p, (s₁.activation a).enclosing = some p ∧ (p = c ∨ s.Inside p c) := by
  induction h with
  | @single c hbc =>
      by_cases hb : b = a
      · subst hb
        exact Or.inr ⟨Or.inl rfl, c, hbc, Or.inl rfl⟩
      · exact Or.inl ⟨hb, .single (hother b hb ▸ hbc)⟩
  | @tail c d _ hcd ih =>
      by_cases hc : c = a
      · subst hc
        rcases ih with ⟨-, hin⟩ | ⟨-, p, hp, hpc⟩
        · exact Or.inr ⟨Or.inr hin, d, hcd, Or.inl rfl⟩
        · -- The new link does not lead back to where it starts.
          obtain ⟨hne, hnot⟩ := hfree p hp
          exact (hpc.elim hne hnot).elim
      · have hlink : (s.activation c).enclosing = some d := hother c hc ▸ hcd
        rcases ih with ⟨hb, hin⟩ | ⟨hb, p, hp, hpc⟩
        · exact Or.inl ⟨hb, hin.tail hlink⟩
        · refine Or.inr ⟨hb, p, hp, Or.inr ?_⟩
          rcases hpc with rfl | hin
          · exact .single hlink
          · exact hin.tail hlink

/-- A link out of a scope closes no circle if it leads to no scope nested there. -/
theorem acyclic_of_link
    (hother : ∀ b, b ≠ a → (s₁.activation b).enclosing = (s.activation b).enclosing)
    (hfree : ∀ p, (s₁.activation a).enclosing = some p → p ≠ a ∧ ¬ s.Inside p a)
    (hacyclic : ∀ b, ¬ s.Inside b b) (b : ActivationId) : ¬ s₁.Inside b b := by
  intro hb
  rcases inside_of_link hother hfree hb with ⟨-, hin⟩ | ⟨hba, p, hp, hpb⟩
  · exact hacyclic b hin
  · obtain ⟨hne, hnot⟩ := hfree p hp
    rcases hpb with rfl | hpb
    · exact hba.elim hne hnot
    · rcases hba with rfl | hba
      · exact hnot hpb
      · exact hnot (hpb.trans hba)

/-! ## Moving -/

section Rehung

variable {l : LayoutId} {parent : Option LayoutId}

theorem rewires_unhooked (s : Store) (l : LayoutId) (parent : Option LayoutId) :
    s.Rewires (s.unhooked l parent) := by
  have hlinked := rewires_relinked s l parent
  unfold unhooked
  split
  · exact hlinked.trans (rewires_removeChild _ _ l)
  · exact hlinked

theorem enclosing_unhooked (hl : s.Allocated (.layout l)) (k : LayoutId) :
    ((s.unhooked l parent).layout k).enclosing
      = if k = l then parent else (s.layout k).enclosing := by
  rw [← enclosing_relinked hl]
  unfold unhooked
  split
  · exact enclosing_removeChild k
  · rfl

theorem mem_children_unhooked {k c : LayoutId} (hc : c ∈ (s.layout k).children) (hne : c ≠ l) :
    c ∈ ((s.unhooked l parent).layout k).children := by
  rw [← children_relinked parent k] at hc
  unfold unhooked
  split
  · exact mem_children_removeChild hc (Or.inr hne)
  · exact hc

theorem rewires_rehung (s : Store) (l : LayoutId) (parent : Option LayoutId) :
    s.Rewires (s.rehung l parent) := by
  have hunhooked := rewires_unhooked s l parent
  cases parent with
  | none => exact hunhooked
  | some p => exact hunhooked.trans (rewires_addChild _ p l)

theorem activations_rehung (s : Store) (l : LayoutId) (parent : Option LayoutId) :
    (s.rehung l parent).activations = s.activations := by
  have hunhooked : (s.unhooked l parent).activations = s.activations := by
    unfold unhooked
    split
    · rw [activations_removeChild, activations_relinked]
    · exact activations_relinked s l parent
  cases parent with
  | none => exact hunhooked
  | some p => exact (activations_addChild _ p l).trans hunhooked

/-- The layout is linked to the new parent, and every other as before. -/
theorem enclosing_rehung (hl : s.Allocated (.layout l)) (k : LayoutId) :
    ((s.rehung l parent).layout k).enclosing
      = if k = l then parent else (s.layout k).enclosing := by
  rw [← enclosing_unhooked hl]
  cases parent with
  | none => rfl
  | some p => exact enclosing_addChild k

/-- Other children stay, and the layout is a child of its new parent. -/
theorem mem_children_rehung (hp : ∀ p, parent = some p → s.Allocated (.layout p)) {k c : LayoutId}
    (hc : c ∈ (s.layout k).children ∧ c ≠ l ∨ parent = some k ∧ c = l) :
    c ∈ ((s.rehung l parent).layout k).children := by
  cases parent with
  | none =>
      obtain ⟨hin, hne⟩ := hc.resolve_right (by simp)
      exact mem_children_unhooked hin hne
  | some p =>
      have hp := ((rewires_unhooked s l (some p)).allocated_layout p).2 (hp p rfl)
      refine (mem_children_addChild hp).2 (hc.imp (fun h => mem_children_unhooked h.1 h.2) ?_)
      rintro ⟨hk, rfl⟩
      exact ⟨(Option.some.inj hk).symm, rfl⟩

end Rehung

section SetEnclosing

variable {parent : Option ActivationId}

theorem rewires_moved (s : Store) (l : LayoutId) (a : ActivationId) (parent : Option ActivationId) :
    s.Rewires ((s.rehung l (parent.map s.layoutOf)).setEnclosingLink a parent) :=
  (rewires_rehung s l _).trans (rewires_setEnclosingLink _ a parent)

/-- A scope that is moved stays nested as its layout is, and so does every other. -/
theorem Nested.moved (h : s.Nested) (ha : s.Allocated (.activation a))
    (halone : ∀ b, s.Current b → s.layoutOf b = s.layoutOf a → b = a)
    (hl : s.Allocated (.layout (s.layoutOf a)))
    (hp : ∀ p, parent = some p → s.Allocated (.layout (s.layoutOf p)))
    (hfree : ∀ p, parent = some p → p ≠ a ∧ ¬ s.Inside p a) :
    ((s.rehung (s.layoutOf a) (parent.map s.layoutOf)).setEnclosingLink a parent).Nested := by
  have hrehung := rewires_rehung s (s.layoutOf a) (parent.map s.layoutOf)
  have hact : ∀ b, (((s.rehung (s.layoutOf a) (parent.map s.layoutOf)).setEnclosingLink a
      parent).activation b).enclosing = if b = a then parent else (s.activation b).enclosing :=
    fun b => by
      rw [enclosing_setEnclosingLink ((hrehung.allocated_activation a).2 ha), activation,
        activations_rehung, ← activation]
  have hlink : ∀ k, (((s.rehung (s.layoutOf a) (parent.map s.layoutOf)).setEnclosingLink a
      parent).layout k).enclosing
        = if k = s.layoutOf a then parent.map s.layoutOf else (s.layout k).enclosing :=
    enclosing_rehung hl
  refine h.rewired (rewires_moved s _ a parent) (fun b hb => ?_) ?_ fun k q hq => ?_
  · rw [hlink, hact]
    by_cases hba : b = a
    · rw [if_pos hba, if_pos (congrArg s.layoutOf hba)]
    · rw [if_neg hba, if_neg fun hl => hba (halone b hb hl)]
      exact h.along b hb
  · refine acyclic_of_link (a := a) (fun b hb => (hact b).trans (if_neg hb)) (fun p hpa => ?_) h.acyclic
    exact hfree p (((hact a).trans (if_pos rfl)).symm.trans hpa)
  · rw [hlink] at hq
    refine mem_children_rehung (fun p hpp => ?_) ?_
    · obtain ⟨e, he, rfl⟩ := Option.map_eq_some_iff.1 hpp
      exact hp e he
    · split at hq
      · rename_i hk
        exact Or.inr ⟨hq, hk⟩
      · rename_i hk
        exact Or.inl ⟨h.registered k q hq, hk⟩

/-- **Moving a scope leaves no lookup behind that it makes wrong.** -/
theorem retraces_setEnclosing (h : s.Retraces alive fun _ _ => False) (hs : s.Sound)
    (ha : Ref.activation a ∈ s.roots) (hp : ∀ p, parent = some p → Ref.activation p ∈ s.roots)
    (hfree : ∀ p, parent = some p → p ≠ a ∧ ¬ s.Inside p a)
    (hup : ∀ k p, k ≠ s.layoutOf a → alive k → (s.layout k).enclosing = some p → alive p)
    (hlasting : ((setEnclosing a parent).run.run s).2.Lasting alive) :
    ((setEnclosing a parent).run.run s).2.Retraces alive fun _ _ => False := by
  rw [setEnclosing_run] at hlasting ⊢
  split
  · rename_i hk
    rw [if_pos hk] at hlasting
    have hl := hs.wellFormed.layoutOf ha
    have hsw := s.swept_invalidateAll (s.layoutOf a)
    have hadv := ((Spares.refl s).invalidateAll (s.layoutOf a)).advances hs
    have hgone : ∀ n, n ∉ ((s.invalidateAll (s.layoutOf a)).layout (s.layoutOf a)).recorded :=
      fun n => not_recorded_sweep forgetting_forgetAll hs.wellFormed hl trivial
    have hswept : (s.invalidateAll (s.layoutOf a)).Lasting alive →
        (s.invalidateAll (s.layoutOf a)).Retraces alive fun _ _ => False := by
      refine h.sweep forgetting_forgetAll hs.wellFormed hl (fun k p n hk _ he => ?_)
        fun _ _ => False.elim
      by_cases hka : k = s.layoutOf a
      · exact Or.inl hka
      · exact Or.inr (Or.inr (hup k p hka hk he))
    -- The rest takes place in the store that the sweep has left.
    have hlayoutOf : (s.invalidateAll (s.layoutOf a)).layoutOf = s.layoutOf := by
      rw [hsw.eq]
      rfl
    have hfree₁ : ∀ p, parent = some p → p ≠ a ∧ ¬ (s.invalidateAll (s.layoutOf a)).Inside p a := by
      rw [hsw.eq]
      exact hfree
    have hkind : ((s.invalidateAll (s.layoutOf a)).layout (s.layoutOf a)).kind.isSingleton = true := by
      rw [(hsw.layout _).kind]
      exact hk
    generalize s.invalidateAll (s.layoutOf a) = s₁ at *
    have hs₁ := hadv.sound hs
    have hlive₁ : ∀ {b}, Ref.activation b ∈ s.roots → s₁.Live (.activation b) := fun hb =>
      live_of_mem_roots (hadv.mem_roots hb)
    have hlayout₁ : ∀ {b}, Ref.activation b ∈ s.roots → s₁.Allocated (.layout (s₁.layoutOf b)) :=
      fun hb => ((hlive₁ hb).layoutOf hs₁.wellFormed).allocated hs₁.wellFormed
    rw [← hlayoutOf] at hgone hkind hlasting ⊢
    have hrehung : s₁.Spares (s₁.rehung (s₁.layoutOf a) (parent.map s₁.layoutOf)) := by
      refine (Spares.refl s₁).rehung (hlayout₁ ha) fun q hq => ?_
      obtain ⟨p, hpp, rfl⟩ := Option.map_eq_some_iff.1 hq
      exact hlayout₁ (hp p hpp)
    have hleads := (hrehung.setEnclosingLink a parent fun p hpp => hlive₁ (hp p hpp)).leads
    have hret := hswept (hlasting.before hleads)
    have hnested := hret.toNested.moved ((hlive₁ ha).allocated hs₁.wellFormed)
      (fun b hb => hs₁.eq_of_layoutOf (hlive₁ ha) hkind hb) (hlayout₁ ha)
      (fun p hpp => hlayout₁ (hp p hpp)) hfree₁
    refine hret.rewired hs₁.wellFormed (rewires_moved s₁ _ a parent) hnested fun k n hn => ?_
    refine (enclosing_rehung (hlayout₁ ha) k).trans (if_neg ?_)
    rintro rfl
    exact hgone n hn
  · exact h

end SetEnclosing

end Store

end ScopeCall
