import ScopeCall.Proofs.Agreeing
import ScopeCall.Proofs.Detaching
import ScopeCall.Proofs.Founding
import ScopeCall.Proofs.Sharing

/-!
# `ScopeCall.Proofs.Undoing` — a scope that is inserted, and taken out again

A scope that has been inserted between another and the scope around that can be taken out again, after lookups and
changes of what any scopes hold. Then all links are what they were, and so are the children of every layout. What the
scope bound is forgotten by every lookup that went through it, be it bound before the scope was inserted or while it
was; so reads from what is inside see what is around again.

## Contents
- **Links.** What inserting a scope, and taking one out, makes of links and children.
- **Interposed.** `Store.Interposed`: a scope is inserted. `interposed_attach`, and `Interposed.abides`.
- **Taking it out.** `Interposed.reliable`: what is remembered where the scope was.
- **Undoing.** `detach_undoes_attach`.
-/

namespace ScopeCall

namespace Store

variable {s s₁ s₂ : Store} {a inserted o b : ActivationId} {n : Name}

/-! ## Links -/

/-- A scope is inserted by setting links, after sweeps that leave the nesting alone. -/
theorem attach_joins (hins : s.Insertable a inserted o)
    (hparent : s.parent (s.layoutOf a) = some (s.layoutOf o)) :
    ∃ s₁ : Store, s₁.Insertable a inserted o ∧ s₁.activations = s.activations
      ∧ (∀ k, (s₁.layout k).enclosing = (s.layout k).enclosing)
      ∧ (∀ k, (s₁.layout k).children = (s.layout k).children)
      ∧ ((attach a inserted).run.run s).2 = s₁.joinedBetween a inserted o := by
  have hsw := s.swept_cleared (s.layoutOf a) (s.layoutOf inserted)
  have hspares := s.spares_cleared (s.layoutOf a) (s.layoutOf inserted)
  refine ⟨(s.cleared (s.layoutOf a) (s.layoutOf inserted)).inherited (s.layoutOf inserted) (s.layoutOf o),
    (hins.spares hspares hsw.activations).spares ((Spares.refl _).inherit _ _) rfl, hsw.activations,
    fun k => ?_, fun k => ?_, attach_eq hins hparent⟩
  · rw [part_inherited Layout.enclosing fun _ _ => rfl, (hsw.layout k).eq]
  · rw [part_inherited Layout.children fun _ _ => rfl, (hsw.layout k).eq]

/-- What the links of scopes are after a scope has been inserted. -/
theorem enclosing_attach (hins : s.Insertable a inserted o)
    (hparent : s.parent (s.layoutOf a) = some (s.layoutOf o)) (b : ActivationId) :
    (((attach a inserted).run.run s).2.activation b).enclosing
      = if b = inserted then some o else if b = a then some inserted else (s.activation b).enclosing := by
  obtain ⟨s₁, hins₁, hact, -, -, heq⟩ := attach_joins hins hparent
  have hsame : s₁.activation b = s.activation b := by rw [activation, hact, ← activation]
  rw [heq, enclosing_joinedBetween hins₁, hsame]

/-- What the children of layouts are then. -/
theorem mem_children_attach (hins : s.Insertable a inserted o)
    (hparent : s.parent (s.layoutOf a) = some (s.layoutOf o)) (k c : LayoutId) :
    c ∈ (((attach a inserted).run.run s).2.layout k).children
      ↔ (c ∈ (s.layout k).children ∨ k = s.layoutOf inserted ∧ c = s.layoutOf a)
          ∧ ¬ (k = s.layoutOf o ∧ c = s.layoutOf a)
        ∨ k = s.layoutOf o ∧ c = s.layoutOf inserted := by
  obtain ⟨s₁, hins₁, hact, -, hchildren, heq⟩ := attach_joins hins hparent
  rw [heq, ← layoutOf_congr hact, ← hchildren, joinedBetween, layout_setEnclosingLink, layout_setEnclosingLink]
  exact mem_children_spliced_iff (hins₁.allocatedLayout hins₁.liveInserted)
    (hins₁.allocatedLayout hins₁.liveOuter)

theorem attach_answers (hparent : s.parent (s.layoutOf a) = some (s.layoutOf o)) (inserted : ActivationId) :
    ((attach a inserted).run.run s).1 = .ok () := by
  rw [attach, run_get_bind, run_bind, insertEnclosing_run, hparent]
  rfl

/-- A scope is taken out by setting links, after a sweep that leaves the nesting alone. -/
theorem detach_unchains (hs : s.WellFormed) (ha : s.Live (.activation a)) (hne : a ≠ o)
    (hinner : (s.activation a).enclosing = some o)
    (hparent : s.parent (s.layoutOf a) = some (s.layoutOf o)) :
    ∃ s₁ : Store, s₁.activations = s.activations ∧ s₁.Allocated (.layout (s.layoutOf a))
      ∧ s₁.Allocated (.layout (s.layoutOf o))
      ∧ (∀ g, s.parent (s.layoutOf o) = some g → s₁.Allocated (.layout g))
      ∧ (∀ k, (s₁.layout k).enclosing = (s.layout k).enclosing)
      ∧ (∀ k, (s₁.layout k).children = (s.layout k).children)
      ∧ (detachEnclosing a).run.run s = (.ok (some o), s₁.unchained a o (s.parent (s.layoutOf o))) := by
  have hsw := s.swept_invalidateNames (s.layoutOf o) (s.layout (s.layoutOf o)).identifiers
  have hgrows := ((Spares.refl s).invalidateNames (s.layoutOf o) (s.layout (s.layoutOf o)).identifiers).leads.grows
  have hanswer : ((detachEnclosing a).run.run s).1 = .ok (some o) := by
    have hlink : (((s.invalidateNames (s.layoutOf o) (s.layout (s.layoutOf o)).identifiers).bypassed (s.layoutOf a)
        (s.layoutOf o) (s.parent (s.layoutOf o))).activation a).enclosing = some o := by
      rw [activation, activations_bypassed, hsw.activations, ← activation, hinner]
    rw [detachEnclosing, run_get_bind, run_bind, removeEnclosing_run, hparent]
    dsimp only
    rw [run_get_bind, run_modify_bind, hlink]
    rfl
  refine ⟨_, hsw.activations, hgrows _ ((ha.layoutOf hs).allocated hs),
    hgrows _ (((ha.enclosing hs hinner).layoutOf hs).allocated hs),
    fun g hg => hgrows _ (hs.enclosing (parent_eq_some hg)), fun k => ?_, fun k => ?_,
    Prod.ext hanswer (detachEnclosing_eq hne hinner hparent)⟩
  · rw [(hsw.layout k).eq]
  · rw [(hsw.layout k).eq]

/-- What the links of layouts are after a scope has been taken out. -/
theorem link_detach (hs : s.WellFormed) (ha : s.Live (.activation a)) (hne : a ≠ o)
    (hinner : (s.activation a).enclosing = some o)
    (hparent : s.parent (s.layoutOf a) = some (s.layoutOf o)) (k : LayoutId) :
    (((detachEnclosing a).run.run s).2.layout k).enclosing
      = if k = s.layoutOf o then none else if k = s.layoutOf a then s.parent (s.layoutOf o)
        else (s.layout k).enclosing := by
  obtain ⟨s₁, hact, hl, hold, -, hlinks, -, heq⟩ := detach_unchains hs ha hne hinner hparent
  rw [heq, ← hlinks, ← layoutOf_congr hact, unchained, layout_setEnclosingLink, layout_setEnclosingLink,
    layout_setEnclosingLink]
  rw [← layoutOf_congr hact] at hl hold
  exact enclosing_bypassed hl hold _ k

/-- What the children of layouts are then. -/
theorem mem_children_detach (hs : s.WellFormed) (ha : s.Live (.activation a)) (hne : a ≠ o)
    (hinner : (s.activation a).enclosing = some o)
    (hparent : s.parent (s.layoutOf a) = some (s.layoutOf o)) (k c : LayoutId) :
    c ∈ (((detachEnclosing a).run.run s).2.layout k).children
      ↔ (c ∈ (s.layout k).children ∧ ¬ (k = s.layoutOf o ∧ c = s.layoutOf a))
          ∧ ¬ (s.parent (s.layoutOf o) = some k ∧ c = s.layoutOf o)
        ∨ s.parent (s.layoutOf o) = some k ∧ c = s.layoutOf a := by
  obtain ⟨s₁, hact, -, -, houter, -, hchildren, heq⟩ := detach_unchains hs ha hne hinner hparent
  rw [heq, ← hchildren, ← layoutOf_congr hact, unchained, layout_setEnclosingLink, layout_setEnclosingLink,
    layout_setEnclosingLink]
  rw [← layoutOf_congr hact] at houter
  exact mem_children_bypassed_iff houter

/-! ## Interposed -/

/-- A scope is where it was inserted, between `a` and `o`; all others are where they were before. -/
structure Interposed (s s' : Store) (a inserted o : ActivationId) : Prop where
  layoutOf : ∀ b, s'.layoutOf b = s.layoutOf b
  alone : (s'.layout (s.layoutOf a)).kind.isSingleton = true
  aloneInserted : (s'.layout (s.layoutOf inserted)).kind.isSingleton = true
  enclosing : ∀ b, (s'.activation b).enclosing
    = if b = inserted then some o else if b = a then some inserted else (s.activation b).enclosing
  children : ∀ k c, c ∈ (s'.layout k).children
    ↔ (c ∈ (s.layout k).children ∨ k = s.layoutOf inserted ∧ c = s.layoutOf a)
        ∧ ¬ (k = s.layoutOf o ∧ c = s.layoutOf a)
      ∨ k = s.layoutOf o ∧ c = s.layoutOf inserted

theorem interposed_attach (hins : s.Insertable a inserted o)
    (hparent : s.parent (s.layoutOf a) = some (s.layoutOf o)) :
    s.Interposed ((attach a inserted).run.run s).2 a inserted o := by
  have hkept : s.Relinks (fun _ _ => True) ((attach a inserted).run.run s).2 :=
    relinks_attach s a inserted fun _ _ => trivial
  constructor
  case layoutOf =>
    obtain ⟨s₁, -, hact, -, -, heq⟩ := attach_joins hins hparent
    intro b
    rw [heq, (rewires_joinedBetween s₁ a inserted o).layoutOf, layoutOf_congr hact]
  case alone => rw [(hkept.layouts _ (hins.allocatedLayout hins.live)).2, hins.alone]
  case aloneInserted => rw [(hkept.layouts _ (hins.allocatedLayout hins.liveInserted)).2, hins.aloneInserted]
  case enclosing => exact enclosing_attach hins hparent
  case children => exact mem_children_attach hins hparent

/-- What is remembered can still be relied on after a scope has been inserted. -/
theorem recollects_attach (hins : s.Insertable a inserted o) (hrec : s.Recalls) :
    ((attach a inserted).run.run s).2.Recollects := by
  have hheld : ∀ r ∈ (Operation.attach a inserted).operands, r ∈ s.roots := by
    simp [Operation.operands, hins.held, hins.heldInserted]
  have hback : ∀ k, ((attach a inserted).run.run s).2.Live (.layout k) → s.Allocated (.layout k) →
      s.Live (.layout k) := (progress_perform hins.sound hheld).back
  have hparent := hrec.toNested.parent hins.sound hins.live hins.enclosing
  have hlink := link_attach hins hparent
  refine ⟨retraces_attach (hrec.toRetraces.weaken fun k hk => hback k hk.live) hins hparent
    (fun k p hki hk hp => ?_) fun k hk _ => hk.live, fun k p hk hp => hk.upward hp⟩
  by_cases hka : k = s.layoutOf a
  · -- The layout behind is now two links away.
    subst hka
    obtain rfl := Option.some.inj ((hins.link hrec.toNested).symm.trans hp)
    refine (hk.upward ((hlink _).trans (if_pos rfl))).upward ((hlink _).trans ?_)
    rw [if_neg hins.layouts_ne.1, if_pos rfl]
  · refine hk.upward ((hlink k).trans ?_)
    rw [if_neg hka, if_neg hki, hp]

/-- Where nothing is moved, the scope stays where it was inserted. -/
theorem Interposed.abides (h : s.Interposed s₁ a inserted o) (habides : s₁.Abides s₂)
    (ha : s₁.Allocated (.layout (s.layoutOf a))) (hi : s₁.Allocated (.layout (s.layoutOf inserted))) :
    s.Interposed s₂ a inserted o where
  layoutOf b := (habides.layoutOf b).trans (h.layoutOf b)
  alone := by rw [(habides.layouts _ ha).2, h.alone]
  aloneInserted := by rw [(habides.layouts _ hi).2, h.aloneInserted]
  enclosing b := (habides.enclosing b).trans (h.enclosing b)
  children k c := by rw [habides.children, h.children]

/-! ## Taking it out -/

/-- Whatever a scope alive is inside is alive. -/
theorem Live.inside (hs : s.WellFormed) {c : ActivationId} (hb : s.Live (.activation b)) (hin : s.Inside b c) :
    s.Live (.activation c) := by
  induction hin with
  | single hlink => exact hb.enclosing hs hlink
  | tail _ hlink ih => exact ih.enclosing hs hlink

/-- What is inside `a` is not inside the scope that has been taken out, and neither is `a`. -/
theorem Unchains.outside (h : s.Unchains s₁ a o) (hacyclic : ∀ b, ¬ s.Inside b b)
    (hb : b = a ∨ s₁.Inside b a) : ¬ (b = o ∨ s₁.Inside b o) := by
  have hne : o ≠ a := by
    rintro rfl
    exact hacyclic o (.single h.inner)
  have houtermost : (s₁.activation o).enclosing = none := by
    rw [h.enclosing, if_neg hne, if_pos rfl]
  have ha : ¬ s₁.Inside a o := by
    have hlink := h.enclosing a
    rw [if_pos rfl] at hlink
    cases houter : (s.activation o).enclosing with
    | none => exact not_inside_of_outermost (hlink.trans houter) o
    | some e =>
        refine not_inside_of_enclosing (hlink.trans houter) ?_ fun hin => hacyclic o (.head houter (h.inside hin))
        rintro rfl
        exact hacyclic e (.single houter)
  have hup : ∀ c, s₁.Inside b c ∨ b = c →
      Relation.ReflTransGen (fun b a => (s₁.activation b).enclosing = some a) b c := by
    rintro c (hin | rfl)
    · exact hin.to_reflTransGen
    · exact .refl
  intro hbo
  -- There is one way outwards only, so one of the two would be inside the other.
  rcases Relation.ReflTransGen.total_of_right_unique (fun c d e hd he => Option.some.inj (hd.symm.trans he))
    (hup a hb.symm) (hup o hbo.symm) with hao | hoa
  · rcases Relation.reflTransGen_iff_eq_or_transGen.1 hao with heq | hin
    · exact hne heq
    · exact ha hin
  · rcases Relation.reflTransGen_iff_eq_or_transGen.1 hoa with heq | hin
    · exact hne heq.symm
    · exact not_inside_of_outermost houtermost a hin

namespace Interposed

variable {s' : Store} (h : s.Interposed s' a inserted o) (hs : s'.Sound) (hrec : s'.Recollects)
  (ha : Ref.activation a ∈ s'.roots) (hne : inserted ≠ a)

include h

theorem inner (hne : inserted ≠ a) : (s'.activation a).enclosing = some inserted := by
  rw [h.enclosing, if_neg hne.symm, if_pos rfl]

theorem outer : (s'.activation inserted).enclosing = some o := by
  rw [h.enclosing, if_pos rfl]

include hs hrec ha hne

theorem parents : s'.parent (s'.layoutOf a) = some (s'.layoutOf inserted)
    ∧ s'.parent (s'.layoutOf inserted) = some (s'.layoutOf o) := by
  have hlive := live_of_mem_roots ha
  exact ⟨hrec.toNested.parent hs hlive (h.inner hne),
    hrec.toNested.parent hs (hlive.enclosing hs.wellFormed (h.inner hne)) h.outer⟩

theorem detaches : ∃ t, s'.Detaches t ((detachEnclosing a).run.run s').2 a inserted :=
  detaches_perform hs ha hne.symm (h.inner hne) (h.parents hs hrec ha hne).1

theorem answers : ((detachEnclosing a).run.run s').1 = .ok (some inserted) := by
  obtain ⟨t, -, -, -, -, -, -, heq⟩ := detach_unchains hs.wellFormed (live_of_mem_roots ha) hne.symm (h.inner hne)
    (h.parents hs hrec ha hne).1
  rw [heq]

theorem unchains : s'.Unchains ((detachEnclosing a).run.run s').2 a inserted := by
  obtain ⟨t, hdetaches⟩ := h.detaches hs hrec ha hne
  exact hdetaches.bypasses

theorem layoutOf_detach (b : ActivationId) : ((detachEnclosing a).run.run s').2.layoutOf b = s.layoutOf b := by
  obtain ⟨t, hdetaches⟩ := h.detaches hs hrec ha hne
  rw [hdetaches.rewires.layoutOf, hdetaches.layoutOf, h.layoutOf]

/-- The layout of `a` is linked past that of the scope, which is linked to none. -/
theorem link (k : LayoutId) : (((detachEnclosing a).run.run s').2.layout k).enclosing
    = if k = s.layoutOf inserted then none else if k = s.layoutOf a then some (s.layoutOf o)
      else (s'.layout k).enclosing := by
  obtain ⟨hparent, houter⟩ := h.parents hs hrec ha hne
  rw [link_detach hs.wellFormed (live_of_mem_roots ha) hne.symm (h.inner hne) hparent, houter, h.layoutOf, h.layoutOf,
    h.layoutOf]

/-- **Every layout has the children that it had before**, if links and children agreed there. -/
theorem mem_children (hchild : s.layoutOf a ∈ (s.layout (s.layoutOf o)).children)
    (hout : s.layoutOf a ∉ (s.layout (s.layoutOf inserted)).children)
    (hfree : s.layoutOf inserted ∉ (s.layout (s.layoutOf o)).children) (k c : LayoutId) :
    c ∈ (((detachEnclosing a).run.run s').2.layout k).children ↔ c ∈ (s.layout k).children := by
  obtain ⟨hparent, houter⟩ := h.parents hs hrec ha hne
  rw [mem_children_detach hs.wellFormed (live_of_mem_roots ha) hne.symm (h.inner hne) hparent, houter, h.children,
    h.layoutOf, h.layoutOf, h.layoutOf, Option.some_inj]
  -- Of the links made and cut in between, none was there before but that of `a`, which is made again.
  constructor
  · rintro (⟨⟨(⟨hold | hnew, -⟩ | hback), hcut⟩, hgone⟩ | ⟨rfl, rfl⟩)
    · exact hold
    · exact absurd hnew hcut
    · exact absurd ⟨hback.1.symm, hback.2⟩ hgone
    · exact hchild
  · intro hc
    by_cases hback : s.layoutOf o = k ∧ c = s.layoutOf a
    · exact Or.inr hback
    · refine Or.inl ⟨⟨Or.inl ⟨Or.inl hc, fun hcut => hback ⟨hcut.1.symm, hcut.2⟩⟩, ?_⟩, ?_⟩
      · rintro ⟨rfl, rfl⟩
        exact hout hc
      · rintro ⟨rfl, rfl⟩
        exact hfree hc

/-- The scopes around what is left inside are nested as their layouts are. -/
theorem follows (hb : ((detachEnclosing a).run.run s').2.Live (.activation b))
    (hin : b = a ∨ ((detachEnclosing a).run.run s').2.Inside b a) :
    ((detachEnclosing a).run.run s').2.Follows b := by
  obtain ⟨t, hdetaches⟩ := h.detaches hs hrec ha hne
  have hunchains := hdetaches.bypasses
  have hout := hunchains.outside hrec.acyclic hin
  have hlink := h.link hs hrec ha hne
  have hlayoutOf : ∀ e, ((detachEnclosing a).run.run s').2.layoutOf e = s'.layoutOf e := fun e =>
    (hdetaches.rewires.layoutOf e).trans (hdetaches.layoutOf e)
  intro e he
  have hlive : ((detachEnclosing a).run.run s').2.Live (.activation e) := by
    rcases he with rfl | he
    · exact hb
    · exact hb.inside hdetaches.sound.wellFormed he
  have hcurrent := hs.current (hdetaches.live hlive)
  have hne_inserted : e ≠ inserted := by
    rintro rfl
    exact hout (he.imp_left Eq.symm)
  -- Both layouts that have moved admit one scope only, so any other scope is of another layout.
  have hother : s'.layoutOf e ≠ s'.layoutOf inserted := by
    intro heq
    have hi := (live_of_mem_roots ha).enclosing hs.wellFormed (h.inner hne)
    exact hne_inserted (hs.eq_of_layoutOf hi (h.layoutOf inserted ▸ h.aloneInserted) hcurrent heq)
  rw [funext hlayoutOf, hlink, hunchains.enclosing, if_neg (h.layoutOf inserted ▸ hother), if_neg hne_inserted]
  by_cases hea : e = a
  · subst hea
    rw [if_pos (h.layoutOf e), if_pos rfl, h.outer, Option.map_some, h.layoutOf]
  · have hla : s'.layoutOf e ≠ s'.layoutOf a := fun heq =>
      hea (hs.eq_of_layoutOf (live_of_mem_roots ha) (h.layoutOf a ▸ h.alone) hcurrent heq)
    rw [if_neg (h.layoutOf a ▸ hla), if_neg hea, hrec.along e hcurrent]

/-- **What is remembered is reliable where the scope was.** -/
theorem reliable (hb : ((detachEnclosing a).run.run s').2.Live (.activation b))
    (hin : b = a ∨ ((detachEnclosing a).run.run s').2.Inside b a) (n : Name) :
    ((detachEnclosing a).run.run s').2.ReliableAt b n := by
  obtain ⟨t, hdetaches⟩ := h.detaches hs hrec ha hne
  have hout := hdetaches.bypasses.outside hrec.acyclic hin
  have hret := hdetaches.retraces_left hs hrec.toRetraces fun _ => hrec.toNested.upheld hs
  exact reliableAt_unchained hret hdetaches.soundSwept hdetaches.sound hdetaches.rewires
    (fun _ => hdetaches.liveSwept) hdetaches.unchains (hdetaches.gone hs) hb ⟨b, hb, (hdetaches.layoutOf b).symm⟩
    (Or.inr (Or.inl hout))

end Interposed

/-! ## Undoing -/

/-- Reading through a site looks the name up, and runs an active binding that is found. -/
theorem read_run {σ : Type} (getters : Getters σ) (host : σ) (c : CacheId) (b : ActivationId) :
    (EvalM.read getters c b).run.run ⟨s, host⟩ = match ((cachedRead c b).run s).1 with
      | none   => (.ok none, ⟨((cachedRead c b).run s).2, host⟩)
      | some v => (some <$> EvalM.force getters v).run.run ⟨((cachedRead c b).run s).2, host⟩ := by
  have hstored : (EvalM.onStore (cachedRead c b)).run.run (⟨s, host⟩ : Machine σ)
      = (.ok ((cachedRead c b).run s).1, ⟨((cachedRead c b).run s).2, host⟩) := rfl
  unfold EvalM.read
  rw [ExceptT.run_bind, StateT.run_bind, hstored]
  cases ((cachedRead c b).run s).1 <;> rfl

/-- After a scope has been inserted, with nothing moved since, it is still where it was inserted, and what is
    remembered can be relied on. -/
theorem Founding.interposed (h : Founding s) (hins : s.Insertable a inserted o)
    (hrun : LocalRun ((attach a inserted).run.run s).2 s₁) :
    Reachable s₁ ∧ s₁.Recollects ∧ s.Interposed s₁ a inserted o := by
  obtain ⟨⟨names, hlexical⟩, -⟩ := h.lexical
  obtain ⟨hs, hrec⟩ := hlexical.recalls (sound_new names) (recalls_new names)
  have hheld : ∀ r ∈ (Operation.attach a inserted).operands, r ∈ s.roots := by
    simp [Operation.operands, hins.held, hins.heldInserted]
  have hattached : s.Step ((attach a inserted).run.run s).2 := .operate (.attach a inserted) hheld
  -- The run up to the insertion, the insertion, and the run after it.
  have hfirst : Run (.new names) s := Relation.ReflTransGen.mono (fun _ _ => LexicalStep.step) _ _ hlexical
  have hlast : Run _ s₁ := Relation.ReflTransGen.mono (fun _ _ => LocalStep.step) _ _ hrun
  have hs₁ := (hattached.progress hs).sound
  have hroots := (keepsCalls_attach s a inserted).held
  obtain ⟨-, hrec₁, habides⟩ := hrun.recollects hs₁ (recollects_attach hins hrec)
  have hinterposed := interposed_attach hins (hrec.toNested.parent hs hins.live hins.enclosing)
  refine ⟨⟨names, (hfirst.tail hattached).trans hlast⟩, hrec₁, hinterposed.abides habides ?_ ?_⟩
  · rw [← hinterposed.layoutOf]
    exact hs₁.wellFormed.layoutOf (hroots _ hins.held)
  · rw [← hinterposed.layoutOf]
    exact hs₁.wellFormed.layoutOf (hroots _ hins.heldInserted)

/-- **Taking out a scope undoes inserting it.** In a program that links layouts no later than their scopes are made,
    let a scope of a layout that admits one be inserted between another such scope and the one around that; then let
    names be looked up, and let any scopes be written in between. The call that takes the scope out answers it. Scope
    and layout are where they were again, those taken out are nested in nothing, every layout has the children that it
    had, and reads from everything that is inside answer what the dynamic walk finds. -/
theorem detach_undoes_attach (h : Founding s) (ha : Ref.activation a ∈ s.roots)
    (hi : Ref.activation inserted ∈ s.roots) (halone : (s.layout (s.layoutOf a)).kind.isSingleton = true)
    (halone' : (s.layout (s.layoutOf inserted)).kind.isSingleton = true) (ho : (s.activation a).enclosing = some o)
    (hfree : (s.activation inserted).enclosing = none) (hout : inserted ≠ a ∧ ¬ s.Inside a inserted)
    (hrun : LocalRun ((attach a inserted).run.run s).2 s₁) (hheld : Ref.activation a ∈ s₁.roots) :
    ((attach a inserted).run.run s).1 = .ok ()
    ∧ ∃ s₂, (detachEnclosing a).run.run s₁ = (.ok (some inserted), s₂)
      ∧ (s₂.activation a).enclosing = some o ∧ s₂.parent (s₂.layoutOf a) = some (s₂.layoutOf o)
      ∧ (s₂.activation inserted).enclosing = none ∧ (s₂.layout (s₂.layoutOf inserted)).enclosing = none
      ∧ (∀ k c, c ∈ (s₂.layout k).children ↔ c ∈ (s.layout k).children)
      ∧ ∀ b, s₂.Live (.activation b) → b = a ∨ s₂.Inside b a →
        ∀ (σ : Type) (getters : Getters σ) (host : σ) (c : CacheId),
          (EvalM.read getters c b).run.run ⟨s₂, host⟩
            = match s₂.lookupDynamic b (s₂.cache c).name with
              | none   => (.ok none, ⟨((cachedRead c b).run s₂).2, host⟩)
              | some v => (some <$> EvalM.force getters v).run.run ⟨((cachedRead c b).run s₂).2, host⟩ := by
  obtain ⟨⟨names, hlexical⟩, hfounded⟩ := h.lexical
  obtain ⟨hs, hrec⟩ := hlexical.recalls (sound_new names) (recalls_new names)
  have hins : s.Insertable a inserted o := ⟨hs, ha, hi, halone, halone', hout.1, hout.2, ho⟩
  obtain ⟨hreach, hrec₁, hinterposed⟩ := h.interposed hins hrun
  have hs₁ := hreach.sound
  have hstep : s₁.Step ((detachEnclosing a).run.run s₁).2 :=
    .operate (.detachEnclosing a) (List.forall_mem_singleton.2 hheld)
  have hreach₂ : Reachable ((detachEnclosing a).run.run s₁).2 := hreach.imp fun _ hrun => hrun.tail hstep
  have hanswers := hinterposed.answers hs₁ hrec₁ hheld hout.1
  have hlayoutOf := hinterposed.layoutOf_detach hs₁ hrec₁ hheld hout.1
  have hunchains := hinterposed.unchains hs₁ hrec₁ hheld hout.1
  have hlinks := hinterposed.link hs₁ hrec₁ hheld hout.1
  have hfollows := fun b => hinterposed.follows (b := b) hs₁ hrec₁ hheld hout.1
  have hreliable := fun b => hinterposed.reliable (b := b) hs₁ hrec₁ hheld hout.1
  -- Only what is linked to a layout is a child of it.
  have hlink := hins.link hrec.toNested
  have hunlinked : (s.layout (s.layoutOf inserted)).enclosing = none := by
    rw [hrec.along inserted (hs.current hins.liveInserted), hfree]
    rfl
  have hchildren := hinterposed.mem_children hs₁ hrec₁ hheld hout.1 (hrec.registered _ _ hlink)
    (fun hc => hins.layouts_ne.2 (Option.some.inj ((hfounded.children _ _ hc).symm.trans hlink)))
    fun hc => Option.some_ne_none _ ((hfounded.children _ _ hc).symm.trans hunlinked)
  have henclosing : (((detachEnclosing a).run.run s₁).2.activation a).enclosing = some o := by
    rw [hunchains.enclosing, if_pos rfl, hinterposed.outer]
  have hwf₂ := hreach₂.sound.wellFormed
  have hlive : ((detachEnclosing a).run.run s₁).2.Live (.activation o) :=
    (live_of_mem_roots ((keepsCalls_detachEnclosing s₁ a).held _ hheld)).enclosing hwf₂ henclosing
  refine ⟨attach_answers (hrec.toNested.parent hs hins.live ho) inserted, _, Prod.ext hanswers rfl, henclosing,
    (parent_eq_some_iff hwf₂).2 ⟨?_, hlive.layoutOf hwf₂⟩, ?_, ?_, hchildren, fun b hb hin σ getters host c => ?_⟩
  · rw [hlayoutOf, hlayoutOf, hlinks, if_neg hins.layouts_ne.1.symm, if_pos rfl]
  · rw [hunchains.enclosing, if_neg hout.1, if_pos rfl]
  · rw [hlayoutOf, hlinks, if_pos rfl]
  · rw [read_run, cachedRead_of_reliableAt hreach₂.sound hreach₂.orderly hb c (hreliable b hb hin _)
      ((hfollows b hb hin).walksAlong _)]

/-- What a module binds is seen from inside while it is around, and no longer. -/
theorem undone_around_module :
    let before : List Operation := [.newLayout "g" .singleton {}, .newScope ⟨0⟩ none 0,
      .define ⟨0⟩ ⟨2⟩ (.int 1), .newLayout "a" .singleton {}, .newScope ⟨1⟩ (some ⟨0⟩) 0,
      .newLayout "f" .fresh {}, .newScope ⟨2⟩ (some ⟨1⟩) 0,
      .newLayout "m" .singleton {}, .newScope ⟨3⟩ none 0, .newCache ⟨2⟩]
    let between : List Operation :=
      [.cachedRead ⟨0⟩ ⟨2⟩, .define ⟨3⟩ ⟨2⟩ (.int 9), .cachedRead ⟨0⟩ ⟨2⟩]
    let s := before.foldl Operation.perform (.new ["x"])
    let s₁ := between.foldl Operation.perform ((attach ⟨1⟩ ⟨3⟩).run.run s).2
    let s₂ := ((detachEnclosing ⟨1⟩).run.run s₁).2
    s₁.lookupDynamic ⟨2⟩ ⟨2⟩ = some (.int 9) ∧ (s₂.activation ⟨1⟩).enclosing = some ⟨0⟩
      ∧ ((EvalM.read (fun _ => pure .null) ⟨0⟩ ⟨2⟩).run.run ⟨s₂, ()⟩).1
          = .ok (some (.int 1)) := by
  intro before between s s₁ s₂
  have hfounding : Founding s := ⟨["x"], .of_allFit (by decide +kernel)⟩
  have hout : ¬ s.Inside ⟨1⟩ ⟨3⟩ :=
    not_inside_of_enclosing (c := ⟨0⟩) (by decide +kernel) (by decide)
      (not_inside_of_outermost (by decide +kernel) _)
  have hrun : LocalRun ((attach ⟨1⟩ ⟨3⟩).run.run s).2 s₁ := .of_allFit (by decide +kernel)
  obtain ⟨-, s₂', heq, henclosing, -, -, -, -, hreads⟩ := detach_undoes_attach (o := ⟨0⟩) hfounding
    (by decide +kernel) (by decide +kernel) (by decide +kernel) (by decide +kernel) (by decide +kernel)
    (by decide +kernel) ⟨by decide, hout⟩ hrun (by decide +kernel)
  obtain rfl : s₂ = s₂' := congrArg Prod.snd heq
  have hinside : s₂.Inside ⟨2⟩ ⟨1⟩ := .single (by decide +kernel)
  have hseen : s₂.lookupDynamic ⟨2⟩ (s₂.cache ⟨0⟩).name = some (.int 1) := by decide +kernel
  refine ⟨by decide +kernel, henclosing, ?_⟩
  rw [hreads ⟨2⟩ (live_of_mem_roots (by decide +kernel)) (Or.inr hinside), hseen]
  rfl

end Store

end ScopeCall
