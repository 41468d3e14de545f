import ScopeCall.Proofs.Agreeing

/-!
# `ScopeCall.Proofs.Detaching` — scopes that are taken out of a chain

A scope is taken out from between a scope nested in it and the scope around it. The sweep that goes before
reaches the names that the scope binds. Lookups of other names that started at the scope, or elsewhere
inside it, and went on to what is around it, stay as they were, although their chain now ends there.

## Contents
- **Chains.** `Store.Unchains`: which links of activations have changed.
- **Walks.** `tends_unchained`: where walks still come to what they came to.
- **Detaching.** `detach_reliable`, and in `detach_leaves_stale` a lookup that is left behind.
-/

namespace ScopeCall

namespace Store

variable {s s₁ : Store} {a o b : ActivationId} {n : Name}

/-! ## Chains -/

/-- `o` has been taken out of the chain, from between `a` and what is around it. -/
structure Unchains (s s' : Store) (a o : ActivationId) : Prop where
  inner : (s.activation a).enclosing = some o
  enclosing : ∀ b, (s'.activation b).enclosing
    = if b = a then (s.activation o).enclosing
      else if b = o then none else (s.activation b).enclosing

section Unchained

variable (h : s.Unchains s₁ a o)
include h

theorem Unchains.link {c : ActivationId} (hbc : (s₁.activation b).enclosing = some c) :
    s.Inside b c := by
  rw [h.enclosing] at hbc
  split at hbc
  · rename_i hb
    subst hb
    exact .head h.inner (.single hbc)
  · split at hbc
    · simp at hbc
    · exact .single hbc

/-- Nothing is nested where it was not. -/
theorem Unchains.inside {c : ActivationId} (hin : s₁.Inside b c) : s.Inside b c := by
  induction hin with
  | single hbc => exact h.link hbc
  | tail _ hcd ih => exact ih.trans (h.link hcd)

theorem Unchains.acyclic (hacyclic : ∀ b, ¬ s.Inside b b) (b : ActivationId) : ¬ s₁.Inside b b := by
  intro hin
  exact hacyclic b (h.inside hin)

end Unchained

/-! ## Walks -/

/-- The sweep has reached the lookups of a name from `b`, or they do not go on past `o`: the name is one
    that `o` binds, or `b` is not inside `o` any more, or there is nothing around `o`. -/
def Covered (s s' : Store) (o b : ActivationId) (n : Name) : Prop :=
  n ∈ (s.layout (s.layoutOf o)).identifiers ∨ ¬ (b = o ∨ s'.Inside b o)
    ∨ (s.activation o).enclosing = none

/-- A scope next to one from which lookups are covered. -/
theorem Covered.outwards {e : ActivationId} (h : s.Covered s₁ o b n)
    (he : (s₁.activation b).enclosing = some e) : s.Covered s₁ o e n := by
  refine h.imp_right (Or.imp_left fun hout hin => hout (Or.inr ?_))
  rcases hin with rfl | hin
  · exact .single he
  · exact .head he hin

/-- **Where lookups are covered, walks come to what they came to before.** Nothing is on record any more
    at the layout of `o` for the names that it binds. -/
theorem tends_unchained (hs : s.Sound) (hn : s.Nested) (hw : s.Rewires s₁)
    (hlive : ∀ b, s₁.Live (.activation b) → s.Live (.activation b)) (hout : s.Unchains s₁ a o)
    (hgone : ∀ n ∈ (s.layout (s.layoutOf o)).identifiers, n ∉ (s.layout (s.layoutOf o)).recorded)
    (f : Finding) : s₁.Tends n f fun b =>
      s.Trace (fun _ _ => False) n (s.layoutOf b) f ∧ s.Covered s₁ o b n := by
  rintro b hb ⟨ht, hcovered⟩
  have hlink := hn.along b (hs.current (hlive b hb))
  have hpast := hout.enclosing b
  rw [hw.layoutOf, hw.view]
  cases ht with
  | pending _ hp => exact hp.elim
  | stop _ hv => exact Or.inl hv
  | root _ hv he =>
      refine Or.inr ⟨hv, ?_⟩
      have hnone : (s.activation b).enclosing = none := Option.map_eq_none_iff.1 (hlink.symm.trans he)
      have hba : b ≠ a := by
        rintro rfl
        simp [hout.inner] at hnone
      rw [if_neg hba, hnone, ite_self] at hpast
      rw [hpast]
  | up hrec hv he ht =>
      refine Or.inr ⟨hv, ?_⟩
      obtain ⟨e, hbe, hlayout⟩ := Option.map_eq_some_iff.1 (hlink.symm.trans he)
      subst hlayout
      by_cases hba : b = a
      · -- The walk went through `o` and found nothing there; now it passes `o` by.
        subst hba
        obtain rfl := Option.some.inj (hout.inner.symm.trans hbe)
        rw [if_pos rfl] at hpast
        have hunbound : n ∉ (s.layout (s.layoutOf o)).identifiers := fun hn => hgone n hn ht.recorded
        have hlinkOuter := hn.along o (hs.current ((hlive b hb).enclosing hs.wellFormed hbe))
        cases ht with
        | pending _ hp => exact hp.elim
        | stop _ hvo => exact absurd ((view_of_not_mem hunbound).symm.trans hvo) (by simp)
        | root _ _ heo =>
            have hnone : (s.activation o).enclosing = none :=
              Option.map_eq_none_iff.1 (hlinkOuter.symm.trans heo)
            rw [hpast, hnone]
        | up _ _ heo hto =>
            obtain ⟨g, hog, hlayout⟩ := Option.map_eq_some_iff.1 (hlinkOuter.symm.trans heo)
            subst hlayout
            rw [hpast, hog]
            refine ⟨hto, Or.inr (Or.inl fun hin => hn.acyclic o ?_)⟩
            rcases hin with rfl | hin
            · exact .single hog
            · exact .head hog (hout.inside hin)
      · rw [if_neg hba] at hpast
        by_cases hbo : b = o
        · -- Here the chain ends now, so the lookup must not have gone on.
          subst hbo
          rcases hcovered with hin | hnot | hnone
          · exact absurd hrec (hgone n hin)
          · exact absurd (Or.inl rfl) hnot
          · simp [hnone] at hbe
        · rw [if_neg hbo, hbe] at hpast
          rw [hpast]
          exact ⟨ht, hcovered.outwards hpast⟩

/-! ## Detaching -/

section Bypassed

variable {l old : LayoutId} {outer : Option LayoutId}

theorem rewires_bypassed (s : Store) (l old : LayoutId) (outer : Option LayoutId) :
    s.Rewires (s.bypassed l old outer) := by
  have hlinked := ((rewires_relinked s l outer).trans (rewires_relinked _ old none)).trans
    (rewires_removeChild _ old l)
  cases outer with
  | none => exact hlinked
  | some g => exact (hlinked.trans (rewires_removeChild _ g old)).trans (rewires_addChild _ g l)

theorem activations_bypassed (s : Store) (l old : LayoutId) (outer : Option LayoutId) :
    (s.bypassed l old outer).activations = s.activations := by
  have hlinked : (((s.relinked l outer).relinked old none).removeChild old l).activations
      = s.activations := by
    rw [activations_removeChild, activations_relinked, activations_relinked]
  unfold bypassed
  cases outer with
  | none => exact hlinked
  | some g =>
      dsimp only
      rw [activations_addChild, activations_removeChild]
      exact hlinked

end Bypassed

/-- The store after layouts have been linked past `o`, and activations too. -/
def unchained (s : Store) (a o : ActivationId) (outer : Option LayoutId) : Store :=
  (((s.bypassed (s.layoutOf a) (s.layoutOf o) outer).setEnclosingLink a none).setEnclosingLink o
    none).setEnclosingLink a (s.activation o).enclosing

theorem rewires_unchained (s : Store) (a o : ActivationId) (outer : Option LayoutId) :
    s.Rewires (s.unchained a o outer) :=
  (((rewires_bypassed s _ _ outer).trans (rewires_setEnclosingLink _ a none)).trans
    (rewires_setEnclosingLink _ o none)).trans (rewires_setEnclosingLink _ a _)

theorem unchains_unchained (ha : s.Allocated (.activation a)) (ho : s.Allocated (.activation o))
    (hinner : (s.activation a).enclosing = some o) (outer : Option LayoutId) :
    s.Unchains (s.unchained a o outer) a o := by
  refine ⟨hinner, fun b => ?_⟩
  have hw₁ := rewires_bypassed s (s.layoutOf a) (s.layoutOf o) outer
  have hact : (s.bypassed (s.layoutOf a) (s.layoutOf o) outer).activation b = s.activation b := by
    rw [activation, activations_bypassed, ← activation]
  unfold unchained
  generalize s.bypassed (s.layoutOf a) (s.layoutOf o) outer = s₁ at *
  have hlink₂ := enclosing_setEnclosingLink ((hw₁.allocated_activation a).2 ha) none
  have hw₂ := hw₁.trans (rewires_setEnclosingLink s₁ a none)
  generalize s₁.setEnclosingLink a none = s₂ at *
  have hlink₃ := enclosing_setEnclosingLink ((hw₂.allocated_activation o).2 ho) none
  have hw₃ := hw₂.trans (rewires_setEnclosingLink s₂ o none)
  generalize s₂.setEnclosingLink o none = s₃ at *
  rw [enclosing_setEnclosingLink ((hw₃.allocated_activation a).2 ha), hlink₃, hlink₂, hact]
  -- The link that is taken away in between does not matter: it is set again.
  split <;> rfl

theorem spares_unchained (hs : s.WellFormed) (ha : s.Live (.activation a))
    (hinner : (s.activation a).enclosing = some o) {outer : Option LayoutId}
    (houter : ∀ p, outer = some p → s.Allocated (.layout p)) : s.Spares (s.unchained a o outer) := by
  have hbypassed := (Spares.refl s).bypassed ((ha.layoutOf hs).allocated hs) (s.layoutOf o) houter
  have ho := ha.enclosing hs hinner
  refine ((hbypassed.setEnclosingLink a none (by simp)).setEnclosingLink o none
    (by simp)).setEnclosingLink a _ fun g hg => ?_
  exact ho.enclosing hs hg

/-- First the sweep, then the links. -/
theorem detachEnclosing_eq (ho : a ≠ o) (hinner : (s.activation a).enclosing = some o)
    (hparent : s.parent (s.layoutOf a) = some (s.layoutOf o)) :
    ((detachEnclosing a).run.run s).2
      = (s.invalidateNames (s.layoutOf o) (s.layout (s.layoutOf o)).identifiers).unchained a o
        (s.parent (s.layoutOf o)) := by
  have hsw := s.swept_invalidateNames (s.layoutOf o) (s.layout (s.layoutOf o)).identifiers
  rw [detachEnclosing_run, hparent]
  dsimp only
  generalize s.invalidateNames (s.layoutOf o) (s.layout (s.layoutOf o)).identifiers = s₁ at *
  have hact : s₁.activations = s.activations := by rw [hsw.eq]
  have hinner₁ : (s₁.activation a).enclosing = some o := by
    rw [activation, hact, ← activation]
    exact hinner
  unfold unchained
  rw [layoutOf_congr hact]
  have hkept : ∀ b, (s₁.bypassed (s.layoutOf a) (s.layoutOf o) (s.parent (s.layoutOf o))).activation b
      = s₁.activation b := fun b => by rw [activation, activations_bypassed, ← activation]
  generalize s₁.bypassed (s.layoutOf a) (s.layoutOf o) (s.parent (s.layoutOf o)) = s₂ at *
  have houter : (s₂.setEnclosingLink a none).activation o = s₁.activation o := by
    unfold setEnclosingLink
    rw [activation_modifyActivation, if_neg fun hc => ho hc.1.symm, hkept]
  rw [hkept, hinner₁]
  dsimp only
  rw [houter]

/-- What is remembered is reliable where lookups are covered. -/
theorem reliableAt_unchained {alive : LayoutId → Prop} (h : s.Retraces alive fun _ _ => False)
    (hs : s.Sound) (hs₁ : s₁.Sound) (hw : s.Rewires s₁)
    (hlive : ∀ b, s₁.Live (.activation b) → s.Live (.activation b)) (hout : s.Unchains s₁ a o)
    (hgone : ∀ n ∈ (s.layout (s.layoutOf o)).identifiers, n ∉ (s.layout (s.layoutOf o)).recorded)
    (hb : s₁.Live (.activation b)) (hal : alive (s.layoutOf b)) (hcovered : s.Covered s₁ o b n) :
    s₁.ReliableAt b n := by
  have hclaimed : ∀ l c, (s₁.layout l).singleton = some c →
      (s₁.layout l).kind.isSingleton = true := fun l c hc => by
    rw [hw.layout] at hc ⊢
    exact h.claimed l c hc
  refine h.reliableAt hs.wellFormed hw.retains (fun t _ ht => ?_) (hw.layoutOf b ▸ hal) fun r _ _ ht => ?_
  · rwa [stableValid, hw.stable] at ht
  · rw [hw.layoutOf] at ht
    exact says_of_tends hs₁ hclaimed (hout.acyclic h.acyclic)
      (tends_unchained hs h.toNested hw hlive hout hgone _) hb ⟨ht, hcovered⟩
      (Nat.lt_succ_of_le (s₁.height_le b))

/-- The layouts of the scopes that are left, but for that of `o`, have parents among them: a scope is
    where it was, or `a`, which was inside `o`. -/
theorem upwardTo_unchained (hs : s.Sound) (hn : s.Nested) (hwf₁ : s₁.WellFormed)
    (hlive : ∀ b, s₁.Live (.activation b) → s.Live (.activation b)) (hout : s.Unchains s₁ a o) :
    s.UpwardTo (fun k => ∃ b, s₁.Live (.activation b) ∧ s.layoutOf b = k) (s.layoutOf o) := by
  rintro k p n ⟨b, hb, rfl⟩ - he
  obtain ⟨e, hbe, rfl⟩ := Option.map_eq_some_iff.1 ((hn.along b (hs.current (hlive b hb))).symm.trans he)
  have hpast := hout.enclosing b
  by_cases hba : b = a
  · subst hba
    obtain rfl := Option.some.inj (hout.inner.symm.trans hbe)
    exact Or.inr (Or.inl rfl)
  · by_cases hbo : b = o
    · exact Or.inl (congrArg s.layoutOf hbo)
    · rw [if_neg hba, if_neg hbo, hbe] at hpast
      exact Or.inr (Or.inr ⟨e, hb.enclosing hwf₁ hpast, rfl⟩)

/-- A scope `o` has been taken out in two steps: a sweep for the names that it binds, and then the links. -/
structure Detaches (s s₁ s₂ : Store) (a o : ActivationId) : Prop where
  outer : s.Live (.activation o)
  eq : s₁ = s.invalidateNames (s.layoutOf o) (s.layout (s.layoutOf o)).identifiers
  rewires : s₁.Rewires s₂
  unchains : s₁.Unchains s₂ a o
  leads : s₁.Leads s₂
  soundSwept : s₁.Sound
  sound : s₂.Sound

theorem detaches_perform (hs : s.Sound) (ha : Ref.activation a ∈ s.roots) (hne : a ≠ o)
    (hinner : (s.activation a).enclosing = some o)
    (hparent : s.parent (s.layoutOf a) = some (s.layoutOf o)) :
    ∃ s₁, s.Detaches s₁ ((Operation.detachEnclosing a).perform s) a o := by
  have hprogress : s.Progress ((Operation.detachEnclosing a).perform s) :=
    progress_perform hs (by simpa [Operation.operands] using ha)
  have houter : ∀ p, s.parent (s.layoutOf o) = some p → s.Allocated (.layout p) := fun p hp =>
    hs.wellFormed.enclosing (parent_eq_some hp)
  have hsw := s.swept_invalidateNames (s.layoutOf o) (s.layout (s.layoutOf o)).identifiers
  have hspares := (Spares.refl s).invalidateNames (s.layoutOf o) (s.layout (s.layoutOf o)).identifiers
  rw [Operation.perform, detachEnclosing_eq hne hinner hparent] at hprogress ⊢
  refine ⟨_, (live_of_mem_roots ha).enclosing hs.wellFormed hinner, rfl, rewires_unchained _ a o _, ?_, ?_,
    (hspares.advances hs).sound hs, hprogress.sound⟩
  all_goals
    generalize s.invalidateNames (s.layoutOf o) (s.layout (s.layoutOf o)).identifiers = s₁ at *
    have hwf₁ := ((hspares.advances hs).sound hs).wellFormed
    have hlive₁ : s₁.Live (.activation a) := live_of_mem_roots (hspares.held ▸ ha)
    have hinner₁ : (s₁.activation a).enclosing = some o := by
      rw [activation, hsw.eq]
      exact hinner
  · exact unchains_unchained (hlive₁.allocated hwf₁) ((hlive₁.enclosing hwf₁ hinner₁).allocated hwf₁)
      hinner₁ _
  · exact (spares_unchained hwf₁ hlive₁ hinner₁ fun p hp => hspares.leads.grows _ (houter p hp)).leads

namespace Detaches

variable {s₂ : Store} (h : s.Detaches s₁ s₂ a o)

include h

theorem swept : s.Swept s₁ := h.eq ▸ s.swept_invalidateNames _ _

theorem spares : s.Spares s₁ := h.eq ▸ (Spares.refl s).invalidateNames _ _

theorem activation (b : ActivationId) : s₁.activation b = s.activation b := by
  rw [Store.activation, h.swept.eq]
  rfl

theorem layoutOf (b : ActivationId) : s₁.layoutOf b = s.layoutOf b :=
  congrArg Activation.layout (h.activation b)

theorem identifiers : (s₁.layout (s₁.layoutOf o)).identifiers = (s.layout (s.layoutOf o)).identifiers := by
  rw [h.layoutOf, Layout.identifiers, (h.swept.layout _).slots, ← Layout.identifiers]

theorem liveSwept (hb : s₂.Live (.activation b)) : s₁.Live (.activation b) :=
  h.leads.live_before h.soundSwept.wellFormed (h.rewires.allocated_activation b).1 hb

theorem live (hb : s₂.Live (.activation b)) : s.Live (.activation b) := by
  have hb₁ := h.liveSwept hb
  have hact : s₁.activations = s.activations := by rw [h.swept.eq]
  refine h.spares.leads.live hb₁ ?_
  simpa only [Allocated, hact] using hb₁.allocated h.soundSwept.wellFormed

theorem allocated_outer (hs : s.Sound) : s.Allocated (.layout (s.layoutOf o)) :=
  (h.outer.layoutOf hs.wellFormed).allocated hs.wellFormed

/-- The sweep changes no chain, so the scope has been taken out of the chain that there was. -/
theorem bypasses : s.Unchains s₂ a o := by
  constructor
  case inner =>
    rw [← h.activation]
    exact h.unchains.inner
  case enclosing =>
    intro b
    rw [h.unchains.enclosing, h.activation, h.activation]

/-- No lookup for a name that the scope binds is on record there any more. -/
theorem gone (hs : s.Sound) : ∀ n ∈ (s₁.layout (s₁.layoutOf o)).identifiers,
    n ∉ (s₁.layout (s₁.layoutOf o)).recorded := by
  intro n hn
  rw [h.identifiers] at hn
  rw [h.layoutOf, h.eq]
  exact not_recorded_sweep (forgetting_forgetNames _) hs.wellFormed (h.allocated_outer hs) hn

/-- In the layouts of what is left, what is remembered is retraced as before the links were changed. -/
theorem retraces_left {alive : LayoutId → Prop} (hs : s.Sound) (hret : s.Retraces alive fun _ _ => False)
    (halive : ∀ b, s.Live (.activation b) → alive (s.layoutOf b)) :
    s₁.Retraces (fun k => ∃ b, s₂.Live (.activation b) ∧ s.layoutOf b = k) fun _ _ => False := by
  have hwf := hs.wellFormed
  have hweak : ∀ k, (∃ b, s₂.Live (.activation b) ∧ s.layoutOf b = k) → s.Allocated (.layout k) → alive k := by
    rintro k ⟨b, hb, rfl⟩ -
    exact halive b (h.live hb)
  have hup := upwardTo_unchained hs hret.toNested h.sound.wellFormed (fun _ hb => h.live hb) h.bypasses
  have hlasting : s₁.Lasting fun k => ∃ b, s₂.Live (.activation b) ∧ s.layoutOf b = k := by
    rintro k ⟨b, hb, rfl⟩ -
    rw [← h.layoutOf]
    exact (h.liveSwept hb).layoutOf h.soundSwept.wellFormed
  rw [h.eq] at hlasting ⊢
  exact (hret.weaken hweak).sweep (forgetting_forgetNames _) hwf (h.allocated_outer hs) hup
    (fun _ _ => False.elim) hlasting

theorem retraces (hs : s.Sound) (hrec : s.Recalls) :
    s₁.Retraces (fun k => ∃ b, s₂.Live (.activation b) ∧ s.layoutOf b = k) fun _ _ => False :=
  h.retraces_left hs hrec.toRetraces fun _ hb => hb.layoutOf hs.wellFormed

end Detaches

/-- **Taking a scope out of a chain leaves no stale lookup where the sweep has gone.** After a scope has
    been detached, what is remembered for a name agrees with the dynamic walk from every live activation:
    for the names that the detached scope binds from all of them, and for every other name from those
    that are not inside it; from all for every name, if nothing was around it. -/
theorem detach_reliable (h : Moving s) (ha : Ref.activation a ∈ s.roots)
    (hinner : (s.activation a).enclosing = some o) :
    ∀ b n, ((Operation.detachEnclosing a).perform s).Live (.activation b) →
      s.Covered ((Operation.detachEnclosing a).perform s) o b n →
        ((Operation.detachEnclosing a).perform s).ReliableAt b n := by
  obtain ⟨hs, hrec⟩ := h.recalls
  have hlive := live_of_mem_roots ha
  have hparent := hrec.toNested.parent hs hlive hinner
  have hne : a ≠ o := fun heq => hrec.acyclic a (.single (heq ▸ hinner))
  obtain ⟨s₁, hdetaches⟩ := detaches_perform hs ha hne hinner hparent
  intro b n hb hcovered
  refine reliableAt_unchained (hdetaches.retraces hs hrec) hdetaches.soundSwept hdetaches.sound
    hdetaches.rewires (fun _ => hdetaches.liveSwept) hdetaches.unchains (hdetaches.gone hs) hb
    ⟨b, hb, (hdetaches.layoutOf b).symm⟩ ?_
  -- The sweep changes neither what the scope binds nor what is inside it.
  unfold Covered
  rw [hdetaches.identifiers, hdetaches.activation]
  exact hcovered

/-- What the detached scope binds is read afresh in the scope that has moved past it. -/
theorem reliable_of_detached :
    let ops : List Operation := [.newLayout "g" .singleton {}, .newScope ⟨0⟩ none 0,
      .define ⟨0⟩ ⟨2⟩ (.int 1), .newLayout "h" .fresh {}, .newScope ⟨1⟩ (some ⟨0⟩) 0,
      .define ⟨1⟩ ⟨2⟩ (.int 5), .newLayout "m" .singleton {}, .newScope ⟨2⟩ (some ⟨1⟩) 0,
      .resolve ⟨2⟩ ⟨2⟩]
    let s := ops.foldl Operation.perform (.new ["x"])
    let s₁ := (Operation.detachEnclosing ⟨2⟩).perform s
    Moving s ∧ s.Covered s₁ ⟨1⟩ ⟨2⟩ ⟨2⟩ ∧ s₁.lookupDynamic ⟨2⟩ ⟨2⟩ = some (.int 1)
      ∧ s₁.ReliableAt ⟨2⟩ ⟨2⟩ := by
  intro ops s s₁
  have hmoving : Moving s := ⟨["x"], .of_allLexical (by decide +kernel)⟩
  have hcovered : s.Covered s₁ ⟨1⟩ ⟨2⟩ ⟨2⟩ := Or.inl (by decide +kernel)
  have hlive : s₁.Live (.activation ⟨2⟩) := live_of_mem_roots (by decide +kernel)
  exact ⟨hmoving, hcovered, by decide +kernel, detach_reliable (o := ⟨1⟩) hmoving (by decide +kernel)
    (by decide +kernel) ⟨2⟩ ⟨2⟩ hlive hcovered⟩

/-- A lookup that started at the detached scope is left behind: it still says what is bound around it no
    more. -/
theorem detach_leaves_stale : ¬ ∀ s a, Reachable s → s.Reliable → Ref.activation a ∈ s.roots →
    (s.layout (s.layoutOf a)).kind.isSingleton = true → (s.activation a).enclosing ≠ none →
    ((Operation.detachEnclosing a).perform s).Reliable := by
  intro h
  have hmoving : Moving ([.newLayout "g" .singleton {}, .newScope ⟨0⟩ none 0,
    .define ⟨0⟩ ⟨2⟩ (.int 1), .newLayout "h" .fresh {}, .newScope ⟨1⟩ (some ⟨0⟩) 0,
    .newLayout "m" .singleton {}, .newScope ⟨2⟩ (some ⟨1⟩) 0, .newCache ⟨2⟩,
    .cachedRead ⟨0⟩ ⟨1⟩].foldl Operation.perform (.new ["x"])) := ⟨["x"], .of_allLexical (by decide +kernel)⟩
  have hreliable := h _ ⟨2⟩ hmoving.reachable hmoving.reliable (by decide +kernel) (by decide +kernel)
    (by decide +kernel)
  refine not_reliable_of_cached (a := ⟨1⟩) (c := ⟨0⟩) (r := .stable ⟨1⟩ ⟨0⟩)
    (live_of_mem_roots ?_) ?_ ?_ hreliable
  all_goals decide +kernel

end Store

end ScopeCall
