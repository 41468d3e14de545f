import ScopeCall.Proofs.Inserting
import ScopeCall.Proofs.Reading

/-!
# `ScopeCall.Proofs.Agreeing` — what is remembered, while scopes move

A program may move the scopes that admit no other activation, and insert them between others, besides all
that it does where scopes stay as they are. After every step each result that is remembered still says
what the dynamic walk finds, or nothing.

## Contents
- **Steps.** `Store.MovingStep`: a lexical step, a scope that is moved, or one that is inserted.
- **Steps keep results reliable.** `recalls_setEnclosing`, `recalls_attach`, and `MovingStep.recalls`.
- **Runs.** `moving_reliable`.
-/

namespace ScopeCall

namespace Store

variable {s s₁ s₂ : Store} {a : ActivationId}

/-! ## Steps -/

/-- One step of a program that nests scopes lexically, and moves only scopes that admit no other
    activation. A scope is never moved into itself, nor into a scope nested in it. -/
inductive MovingStep (s : Store) : Store → Prop where
  | lexical {s' : Store} (h : s.LexicalStep s') : MovingStep s s'
  | setEnclosing (a : ActivationId) (parent : Option ActivationId)
      (h : ∀ r ∈ (Operation.setEnclosing a parent).operands, r ∈ s.roots)
      (hfree : ∀ p, parent = some p → p ≠ a ∧ ¬ s.Inside p a)
      (houtlive : ((Operation.setEnclosing a parent).perform s).ParentsOutlive) :
      MovingStep s ((Operation.setEnclosing a parent).perform s)
  | attach (a inserted : ActivationId)
      (h : ∀ r ∈ (Operation.attach a inserted).operands, r ∈ s.roots)
      (halone : (s.layout (s.layoutOf a)).kind.isSingleton = true)
      (halone' : (s.layout (s.layoutOf inserted)).kind.isSingleton = true)
      (hfree : inserted ≠ a ∧ ¬ s.Inside a inserted)
      (houtlive : ((Operation.attach a inserted).perform s).ParentsOutlive) :
      MovingStep s ((Operation.attach a inserted).perform s)

/-- Any number of such steps. -/
abbrev MovingRun : Store → Store → Prop := Relation.ReflTransGen MovingStep

/-- A store that a program can come to that keeps to such steps. -/
def Moving (s : Store) : Prop := ∃ names, MovingRun (.new names) s

theorem MovingStep.step (h : s.MovingStep s₁) : s.Step s₁ := by
  cases h with
  | lexical h => exact h.step
  | setEnclosing a parent h _ _ => exact .operate (.setEnclosing a parent) h
  | attach a inserted h _ _ _ _ => exact .operate (.attach a inserted) h

/-- Lexical operations one after another, among them none that moves a scope. -/
theorem MovingRun.of_allLexical {ops : List Operation} (h : s.allLexical ops = true) :
    MovingRun s (ops.foldl Operation.perform s) :=
  Relation.ReflTransGen.mono (fun _ _ h => MovingStep.lexical h) _ _ (LexicalRun.of_allLexical h)

/-- A scope at the end of a chain is nested in none. -/
theorem not_inside_of_outermost (h : (s.activation a).enclosing = none) (b : ActivationId) :
    ¬ s.Inside a b := by
  intro hin
  obtain ⟨c, hc, -⟩ := Relation.TransGen.head'_iff.1 hin
  simp [h] at hc

/-- What is neither the scope around another, nor around that, is not around the other. -/
theorem not_inside_of_enclosing {b c e : ActivationId} (h : (s.activation b).enclosing = some c)
    (hne : c ≠ e) (hout : ¬ s.Inside c e) : ¬ s.Inside b e := by
  intro hin
  obtain ⟨d, hd, hin⟩ := Relation.TransGen.head'_iff.1 hin
  obtain rfl := Option.some.inj (h.symm.trans hd)
  exact (Relation.reflTransGen_iff_eq_or_transGen.1 hin).elim (fun heq => hne heq.symm) hout

/-! ## Steps keep results reliable -/

/-- Moving a scope changes the link of its layout only. -/
theorem link_setEnclosing (hs : s.Sound) (ha : s.Live (.activation a)) (parent : Option ActivationId)
    {k : LayoutId} (hk : k ≠ s.layoutOf a) :
    (((setEnclosing a parent).run.run s).2.layout k).enclosing = (s.layout k).enclosing := by
  have hl := (ha.layoutOf hs.wellFormed).allocated hs.wellFormed
  have hsw := s.swept_invalidateAll (s.layoutOf a)
  have hl₁ := ((Spares.refl s).invalidateAll (s.layoutOf a)).leads.grows _ hl
  rw [setEnclosing_run]
  split
  · rw [layout_setEnclosingLink, enclosing_rehung hl₁, if_neg hk, (hsw.layout k).eq]
  · rfl

theorem recalls_setEnclosing (hs : s.Sound) (hrec : s.Recalls) {parent : Option ActivationId}
    (h : ∀ r ∈ (Operation.setEnclosing a parent).operands, r ∈ s.roots)
    (hfree : ∀ p, parent = some p → p ≠ a ∧ ¬ s.Inside p a)
    (houtlive : ((Operation.setEnclosing a parent).perform s).ParentsOutlive) :
    ((Operation.setEnclosing a parent).perform s).Recalls := by
  have hprogress := progress_perform hs h
  simp only [Operation.operands, List.forall_mem_cons, List.forall_mem_map] at h
  have hp : ∀ p, parent = some p → Ref.activation p ∈ s.roots := fun p hp => h.2 p (by simp [hp])
  -- Before the step, the layouts count as alive that are alive after it.
  have hforeseen := hrec.toRetraces.weaken hprogress.back
  refine ⟨retraces_setEnclosing hforeseen hs h.1 hp hfree (fun k p hk hal he => ?_) fun _ hl _ => hl,
    fun l p hl he => houtlive l p he hl⟩
  refine houtlive k p ?_ hal
  exact (link_setEnclosing hs (live_of_mem_roots h.1) parent hk).trans he

theorem recalls_attach (hs : s.Sound) (hrec : s.Recalls) {inserted : ActivationId}
    (h : ∀ r ∈ (Operation.attach a inserted).operands, r ∈ s.roots)
    (halone : (s.layout (s.layoutOf a)).kind.isSingleton = true)
    (halone' : (s.layout (s.layoutOf inserted)).kind.isSingleton = true)
    (hfree : inserted ≠ a ∧ ¬ s.Inside a inserted)
    (houtlive : ((Operation.attach a inserted).perform s).ParentsOutlive) :
    ((Operation.attach a inserted).perform s).Recalls := by
  have hprogress := progress_perform hs h
  simp only [Operation.operands, List.forall_mem_cons] at h
  have hlive : s.Live (.activation a) := live_of_mem_roots h.1
  have halong := hrec.along a (hs.current hlive)
  have hforeseen := hrec.toRetraces.weaken hprogress.back
  refine ⟨?_, fun l p hl he => houtlive l p he hl⟩
  cases hao : (s.activation a).enclosing with
  | none =>
      -- There is no place to insert the scope at, so nothing happens.
      have hnone : s.parent (s.layoutOf a) = none := by
        rw [parent, halong, hao]
        rfl
      have hsame : (Operation.attach a inserted).perform s = s := by
        rw [Operation.perform, attach_run, hnone]
      rw [hsame]
      exact hrec.toRetraces
  | some o =>
      rw [hao] at halong
      have hparent := hrec.toNested.parent hs hlive hao
      have hins : s.Insertable a inserted o :=
        ⟨hs, h.1, h.2.1, halone, halone', hfree.1, hfree.2, hao⟩
      have hlink := link_attach hins hparent
      refine retraces_attach hforeseen hins hparent (fun k p hk hal he => ?_) fun _ hl _ => hl
      by_cases hkl : k = s.layoutOf a
      · -- The layout behind is now two links away.
        subst hkl
        obtain rfl := Option.some.inj (halong.symm.trans he)
        refine houtlive (s.layoutOf inserted) _ ?_ (houtlive (s.layoutOf a) _ ?_ hal)
        · exact (hlink _).trans ((if_neg hins.layouts_ne.1).trans (if_pos rfl))
        · exact (hlink _).trans (if_pos rfl)
      · refine houtlive k p ?_ hal
        exact (hlink k).trans ((if_neg hkl).trans ((if_neg hk).trans he))

/-- **Every step keeps what is remembered reliable.** -/
theorem MovingStep.recalls (h : s.MovingStep s₁) (hs : s.Sound) (hrec : s.Recalls) : s₁.Recalls := by
  cases h with
  | lexical h => exact h.recalls hs hrec
  | setEnclosing a parent h hfree houtlive => exact recalls_setEnclosing hs hrec h hfree houtlive
  | attach a inserted h halone halone' hfree houtlive =>
      exact recalls_attach hs hrec h halone halone' hfree houtlive

/-! ## Runs -/

/-- What every step preserves, a run preserves. -/
theorem MovingRun.recalls (h : MovingRun s s₁) (hs : s.Sound) (hrec : s.Recalls) :
    s₁.Sound ∧ s₁.Recalls := by
  induction h with
  | refl => exact ⟨hs, hrec⟩
  | tail _ hstep ih => exact ⟨(hstep.step.progress ih.1).sound, hstep.recalls ih.1 ih.2⟩

theorem Moving.recalls (h : Moving s) : s.Sound ∧ s.Recalls := by
  obtain ⟨names, hrun⟩ := h
  exact hrun.recalls (sound_new names) (recalls_new names)

theorem MovingRun.run (h : MovingRun s s₁) : Run s s₁ :=
  Relation.ReflTransGen.mono (fun _ _ => MovingStep.step) _ _ h

theorem Moving.reachable (h : Moving s) : Reachable s := h.imp fun _ => MovingRun.run

theorem Moving.reliable (h : Moving s) : s.Reliable := by
  obtain ⟨hs, hrec⟩ := h.recalls
  exact hrec.toRetraces.reliable hs fun a ha => ha.layoutOf hs.wellFormed

/-- **Moving and inserting scopes leaves no stale lookup.** In a store that a program can come to that
    moves only scopes of layouts with one activation, and never into themselves, each live activation is
    nested as its layout is linked, and every result that is remembered at a layout or at a read site
    says from each live activation of the layout what the dynamic walk finds, or nothing. -/
theorem moving_reliable (h : Moving s) :
    (∀ a, s.Live (.activation a) →
      (s.layout (s.layoutOf a)).enclosing = (s.activation a).enclosing.map s.layoutOf)
    ∧ s.Reliable := by
  refine ⟨fun a ha => ?_, h.reliable⟩
  obtain ⟨hs, hrec⟩ := h.recalls
  exact hrec.along a (hs.current ha)

/-- A module is moved into another; a third, found empty, is inserted between the two, and then binds
    the name that had been looked up past it. -/
theorem reliable_of_inserted :
    let before : List Operation := [.newLayout "g" .singleton {}, .newScope ⟨0⟩ none 0,
      .define ⟨0⟩ ⟨2⟩ (.int 1), .newLayout "m" .singleton {}, .newScope ⟨1⟩ none 0,
      .newLayout "h" .singleton {}, .newScope ⟨2⟩ none 0, .newCache ⟨2⟩]
    let between : List Operation := [.cachedRead ⟨0⟩ ⟨1⟩]
    let after : List Operation := [.cachedRead ⟨0⟩ ⟨1⟩, .define ⟨2⟩ ⟨2⟩ (.int 9)]
    let s₁ := (Operation.setEnclosing ⟨1⟩ (some ⟨0⟩)).perform
      (before.foldl Operation.perform (.new ["x"]))
    let s₂ := (Operation.attach ⟨1⟩ ⟨2⟩).perform (between.foldl Operation.perform s₁)
    let s := after.foldl Operation.perform s₂
    Moving s ∧ s.Live (.activation ⟨1⟩) ∧ (s.layout (s.layoutOf ⟨1⟩)).enclosing = some ⟨2⟩
      ∧ s.lookupDynamic ⟨1⟩ ⟨2⟩ = some (.int 9) ∧ s.Reliable := by
  intro before between after s₁ s₂ s
  have hrun₀ : MovingRun (.new ["x"]) (before.foldl Operation.perform (.new ["x"])) :=
    .of_allLexical (by decide +kernel)
  have hrun₁ : MovingRun (.new ["x"]) s₁ := by
    apply hrun₀.tail
    refine .setEnclosing ⟨1⟩ (some ⟨0⟩) (by decide +kernel) ?_
      (nesting_of_keepsNesting (s := s₁) (by decide +kernel)).2
    rintro p ⟨⟩
    exact ⟨by decide, not_inside_of_outermost (by decide +kernel) _⟩
  have hrun₂ : MovingRun (.new ["x"]) s₂ := by
    have hbetween : MovingRun s₁ (between.foldl Operation.perform s₁) :=
      .of_allLexical (by decide +kernel)
    apply (hrun₁.trans hbetween).tail
    refine .attach ⟨1⟩ ⟨2⟩ (by decide +kernel) (by decide +kernel) (by decide +kernel) ?_
      (nesting_of_keepsNesting (s := s₂) (by decide +kernel)).2
    refine ⟨by decide, fun hin => ?_⟩
    obtain ⟨c, hc, hin⟩ := Relation.TransGen.head'_iff.1 hin
    have hlink : ((between.foldl Operation.perform s₁).activation ⟨1⟩).enclosing = some ⟨0⟩ := by
      decide +kernel
    obtain rfl := Option.some.inj (hlink.symm.trans hc)
    rcases Relation.reflTransGen_iff_eq_or_transGen.1 hin with heq | hin
    · exact absurd heq (by decide)
    · exact not_inside_of_outermost (by decide +kernel) _ hin
  have hmoving : Moving s := ⟨["x"], hrun₂.trans (MovingRun.of_allLexical (by decide +kernel))⟩
  have hlive : s.Live (.activation ⟨1⟩) := live_of_mem_roots (by decide +kernel)
  obtain ⟨hlink, hreliable⟩ := moving_reliable hmoving
  have hnested : (s.activation ⟨1⟩).enclosing.map s.layoutOf = some ⟨2⟩ := by decide +kernel
  exact ⟨hmoving, hlive, (hlink ⟨1⟩ hlive).trans hnested, by decide +kernel, hreliable⟩

end Store

end ScopeCall
