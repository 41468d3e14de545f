import ScopeCall.Proofs.Failing
import ScopeCall.Proofs.Fading

/-!
# `ScopeCall.Proofs.Hanging` — where layouts hang

Each layout has a link to its parent, and each has a list of its children. Operations change both sides, some
of them at several layouts. Here each is reduced to one of four changes: everything stays, one layout is hung
elsewhere, one is inserted above another, or the parent of one is taken out. What holds of these changes holds
of all operations.

## Contents
- **Children.** Which children the changes of links leave, and `Store.ListsOnce`: none is listed twice.
- **Changes.** `Store.Rehangs`, and `rehangs_perform`.
- **Registers.** `Store.Registered`: a layout is among the children of its parent, and `registered_perform`, as
  long as no layout is its own parent (`Store.Loopless`).
-/

namespace ScopeCall

namespace Store

variable {s s₁ s₂ : Store} {l p i old : LayoutId} {a : ActivationId}

/-! ## Children -/

theorem parent_eq_some_iff (hs : s.WellFormed) :
    s.parent l = some p ↔ (s.layout l).enclosing = some p ∧ s.Live (.layout p) := by
  constructor
  · intro h
    have hlink := parent_eq_some h
    refine ⟨hlink, (isLive_iff hs (hs.enclosing hlink)).1 ?_⟩
    rw [parent, hlink, Option.bind_some, upgradeLayout, Option.ite_none_right_eq_some] at h
    exact h.1
  · rintro ⟨hlink, hlive⟩
    rw [parent, hlink, Option.bind_some, upgradeLayout,
      if_pos ((isLive_iff hs (hs.enclosing hlink)).2 hlive)]

/-- A layout had the parent that it is linked to, if that is alive later on. -/
theorem parent_before (hs : s.WellFormed)
    (hback : ∀ p, s₁.Live (.layout p) → s.Allocated (.layout p) → s.Live (.layout p))
    (hlink : (s.layout l).enclosing = some p) (hlive : s₁.Live (.layout p)) : s.parent l = some p :=
  (parent_eq_some_iff hs).2 ⟨hlink, hback p hlive (hs.enclosing hlink)⟩

theorem allocated_of_mem_children {c : LayoutId} (hc : c ∈ (s.layout l).children) : s.Allocated (.layout l) := by
  by_contra hl
  simp only [Allocated, Nat.not_lt] at hl
  simp [layout, Array.getElem?_eq_none hl, default, instInhabitedLayout.default] at hc

theorem mem_children_removeChild_iff {k c : LayoutId} : c ∈ ((s.removeChild p l).layout k).children
    ↔ c ∈ (s.layout k).children ∧ ¬ (k = p ∧ c = l) := by
  constructor
  · intro hc
    rw [Store.removeChild, layout_modifyLayout] at hc
    split at hc
    · rename_i hk
      have hc : c ∈ (s.layout p).children ∧ c ≠ l := by simpa [Layout.removeChild] using hc
      exact ⟨hk.1 ▸ hc.1, fun h => hc.2 h.2⟩
    · rename_i hk
      exact ⟨hc, fun h => hk ⟨h.1, h.1 ▸ allocated_of_mem_children hc⟩⟩
  · rintro ⟨hc, hne⟩
    exact mem_children_removeChild hc (not_and_or.1 hne)

theorem mem_children_linked_iff (hp : s.Allocated (.layout p)) {k c : LayoutId} :
    c ∈ ((s.linked l p).layout k).children ↔ c ∈ (s.layout k).children ∨ k = p ∧ c = l := by
  unfold linked
  rw [mem_children_addChild (((rewires_relinked s l (some p)).allocated_layout p).2 hp), children_relinked]

theorem mem_children_rehung_iff {parent : Option LayoutId}
    (hp : ∀ p, parent = some p → s.Allocated (.layout p)) {k c : LayoutId} :
    c ∈ ((s.rehung l parent).layout k).children
      ↔ c ∈ (s.layout k).children ∧ ¬ (s.parent l = some k ∧ c = l) ∨ parent = some k ∧ c = l := by
  have hunhooked : c ∈ ((s.unhooked l parent).layout k).children
      ↔ c ∈ (s.layout k).children ∧ ¬ (s.parent l = some k ∧ c = l) := by
    unfold unhooked
    cases s.parent l with
    | none => simp [children_relinked]
    | some q =>
        dsimp only
        rw [mem_children_removeChild_iff, children_relinked, Option.some_inj, eq_comm (a := q)]
  cases parent with
  | none => exact hunhooked.trans (by simp)
  | some p =>
      have hp := ((rewires_unhooked s l (some p)).allocated_layout p).2 (hp p rfl)
      rw [← hunhooked, Option.some_inj, eq_comm (a := p)]
      exact mem_children_addChild hp

theorem mem_children_spliced_iff (hi : s.Allocated (.layout i)) (ho : s.Allocated (.layout old))
    {k c : LayoutId} : c ∈ ((s.spliced l i old).layout k).children
      ↔ (c ∈ (s.layout k).children ∨ k = i ∧ c = l) ∧ ¬ (k = old ∧ c = l) ∨ k = old ∧ c = i := by
  have hlinked := (rewires_relinked s i (some old)).trans (rewires_relinked _ l (some i))
  have hadded := (hlinked.trans (rewires_addChild _ i l)).trans (rewires_removeChild _ old l)
  unfold spliced
  dsimp only
  rw [mem_children_addChild ((hadded.allocated_layout old).2 ho), mem_children_removeChild_iff,
    mem_children_addChild ((hlinked.allocated_layout i).2 hi), children_relinked, children_relinked]

theorem enclosing_bypassed (hl : s.Allocated (.layout l)) (ho : s.Allocated (.layout old))
    (outer : Option LayoutId) (k : LayoutId) : ((s.bypassed l old outer).layout k).enclosing
      = if k = old then none else if k = l then outer else (s.layout k).enclosing := by
  have ho₁ := ((rewires_relinked s l outer).allocated_layout old).2 ho
  have hlinked : ((((s.relinked l outer).relinked old none).removeChild old l).layout k).enclosing
      = if k = old then none else if k = l then outer else (s.layout k).enclosing := by
    rw [enclosing_removeChild, enclosing_relinked ho₁, enclosing_relinked hl]
  unfold bypassed
  cases outer with
  | none => exact hlinked
  | some g =>
      dsimp only
      rw [enclosing_addChild, enclosing_removeChild]
      exact hlinked

theorem mem_children_bypassed_iff {outer : Option LayoutId}
    (hg : ∀ g, outer = some g → s.Allocated (.layout g)) {k c : LayoutId} :
    c ∈ ((s.bypassed l old outer).layout k).children
      ↔ (c ∈ (s.layout k).children ∧ ¬ (k = old ∧ c = l)) ∧ ¬ (outer = some k ∧ c = old)
        ∨ outer = some k ∧ c = l := by
  have hw := ((rewires_relinked s l outer).trans (rewires_relinked _ old none)).trans
    (rewires_removeChild _ old l)
  have hlinked : c ∈ ((((s.relinked l outer).relinked old none).removeChild old l).layout k).children
      ↔ c ∈ (s.layout k).children ∧ ¬ (k = old ∧ c = l) := by
    rw [mem_children_removeChild_iff, children_relinked, children_relinked]
  unfold bypassed
  cases outer with
  | none => exact hlinked.trans (by simp)
  | some g =>
      dsimp only
      rw [mem_children_addChild (((hw.trans (rewires_removeChild _ g old)).allocated_layout g).2 (hg g rfl)),
        mem_children_removeChild_iff, hlinked, Option.some_inj, eq_comm (a := g)]

/-- No child is listed twice. -/
def ListsOnce (s : Store) : Prop := ∀ k, (s.layout k).children.Nodup

theorem ListsOnce.of_children (h : s.ListsOnce)
    (hchildren : ∀ k, (s₁.layout k).children = (s.layout k).children) : s₁.ListsOnce := fun k => by
  rw [hchildren]
  exact h k

theorem ListsOnce.relinked (h : s.ListsOnce) (parent : Option LayoutId) : (s.relinked l parent).ListsOnce :=
  h.of_children (children_relinked parent)

theorem ListsOnce.addChild (h : s.ListsOnce) (p l : LayoutId) : (s.addChild p l).ListsOnce := fun k => by
  rw [Store.addChild, layout_modifyLayout]
  split
  · rw [Layout.addChild]
    split
    · exact h p
    · rename_i hnew
      have hnew : l ∉ (s.layout p).children := by simpa using hnew
      exact (h p).append (List.nodup_singleton l) (List.disjoint_singleton.2 hnew)
  · exact h k

theorem ListsOnce.removeChild (h : s.ListsOnce) (p l : LayoutId) : (s.removeChild p l).ListsOnce := fun k => by
  rw [Store.removeChild, layout_modifyLayout]
  split
  · exact (h p).filter _
  · exact h k

theorem ListsOnce.rehung (h : s.ListsOnce) (l : LayoutId) (parent : Option LayoutId) :
    (s.rehung l parent).ListsOnce := by
  have hunhooked : (s.unhooked l parent).ListsOnce := by
    unfold unhooked
    split
    · exact (h.relinked parent).removeChild _ l
    · exact h.relinked parent
  cases parent with
  | none => exact hunhooked
  | some p => exact hunhooked.addChild p l

theorem ListsOnce.bypassed (h : s.ListsOnce) (l old : LayoutId) (outer : Option LayoutId) :
    (s.bypassed l old outer).ListsOnce := by
  have hlinked := ((h.relinked (l := l) outer).relinked (l := old) none).removeChild old l
  cases outer with
  | none => exact hlinked
  | some g => exact (hlinked.removeChild g old).addChild g l

theorem ListsOnce.spliced (h : s.ListsOnce) (l i old : LayoutId) : (s.spliced l i old).ListsOnce :=
  (((((h.relinked (l := i) (some old)).relinked (l := l) (some i)).addChild i l).removeChild old l).addChild
    old i)

/-! ## Changes -/

/-- How links and children change in one operation, where `inserts l i` says which layout may be inserted above
    which. What the children of a layout are is said only as long as it is alive. -/
inductive Rehangs (inserts : LayoutId → LayoutId → Prop) (s s' : Store) : Prop where
  | stay (henclosing : ∀ k, (s'.layout k).enclosing = (s.layout k).enclosing)
    (hchildren : ∀ k, (s'.layout k).children = (s.layout k).children)
  /-- A layout has been taken from its parent, and given another, or none. -/
  | hang (l : LayoutId) (parent : Option LayoutId)
    (henclosing : ∀ k, (s'.layout k).enclosing = if k = l then parent else (s.layout k).enclosing)
    (hchildren : ∀ k, (s.Allocated (.layout k) → s.Live (.layout k)) → s'.Live (.layout k) → ∀ c,
      c ∈ (s'.layout k).children ↔ c ∈ (s.layout k).children ∧ ¬ ((s.layout l).enclosing = some k ∧ c = l)
        ∨ parent = some k ∧ c = l)
    (honce : s.ListsOnce → s'.ListsOnce)
  /-- A layout `i` has been put between another and its parent. -/
  | insert (l i old : LayoutId) (hinserts : inserts l i) (hparent : s.parent l = some old)
    (hlive : s'.Live (.layout i))
    (henclosing : ∀ k, (s'.layout k).enclosing
      = if k = l then some i else if k = i then some old else (s.layout k).enclosing)
    (hchildren : ∀ k c, c ∈ (s'.layout k).children ↔
      (c ∈ (s.layout k).children ∨ k = i ∧ c = l) ∧ ¬ (k = old ∧ c = l) ∨ k = old ∧ c = i)
    (honce : s.ListsOnce → s'.ListsOnce)
  /-- The parent of a layout has been taken out. -/
  | remove (l old : LayoutId) (hparent : s.parent l = some old)
    (henclosing : ∀ k, (s'.layout k).enclosing
      = if k = old then none else if k = l then s.parent old else (s.layout k).enclosing)
    (hchildren : ∀ k c, c ∈ (s'.layout k).children ↔
      (c ∈ (s.layout k).children ∧ ¬ (k = old ∧ c = l)) ∧ ¬ (s.parent old = some k ∧ c = old)
        ∨ s.parent old = some k ∧ c = l)
    (honce : s.ListsOnce → s'.ListsOnce)

namespace Operation

/-- The layout that an operation inserts a layout above, and the one that it inserts. -/
def Inserts (s : Store) : Operation → LayoutId → LayoutId → Prop
  | .attach a b, l, i => l = s.layoutOf a ∧ i = s.layoutOf b
  | _, _, _           => False

end Operation

section Rehanging

variable {inserts : LayoutId → LayoutId → Prop}

theorem Fades.rehangs {alive : LayoutId → Prop} (h : s.Fades alive s₁) : Rehangs inserts s s₁ :=
  .stay h.enclosing h.children

/-- A layout without a parent alive has been linked, and then other things have happened. -/
theorem rehangs_linked (hs : s.WellFormed) (hl : s.Allocated (.layout l)) (hp : s.Allocated (.layout p))
    (hfree : s.parent l = none) {alive : LayoutId → Prop} (hlast : (s.linked l p).Fades alive s₁) :
    Rehangs inserts s s₁ := by
  refine .hang l (some p) (fun k => ?_) (fun k hk _ c => ?_) fun h => ?_
  · rw [hlast.enclosing, enclosing_linked hl]
  · rw [hlast.children, mem_children_linked_iff hp, Option.some_inj, eq_comm (a := p)]
    refine or_congr_left (iff_self_and.2 fun _ h => ?_)
    rw [(parent_eq_some_iff hs).2 ⟨h.1, hk (hs.enclosing h.1)⟩] at hfree
    exact absurd hfree (Option.some_ne_none k)
  · exact ((h.relinked (some p)).addChild p l).of_children hlast.children

theorem rehangs_initializeEnclosing (hs : s.WellFormed) (hl : s.Allocated (.layout l))
    {parent : Option LayoutId} (hp : ∀ p, parent = some p → s.Allocated (.layout p)) :
    Rehangs inserts s ((initializeEnclosing l parent).run.run s).2 := by
  rw [initializeEnclosing_run]
  split
  · rename_i p hfree
    exact rehangs_linked hs hl (hp p rfl) hfree (.refl (fun _ => False) (s.linked l p))
  · split <;> exact .stay (fun _ => rfl) fun _ => rfl

/-- Making an activation changes no link, or links its layout first, which has no parent alive then. -/
theorem fades_newScope (hs : s.Sound) {enclosing : Option ActivationId} {depth : Nat}
    (h : ∀ r ∈ (Operation.newScope l enclosing depth).operands, r ∈ s.roots) {alive : LayoutId → Prop}
    (hlasting : ((Operation.newScope l enclosing depth).perform s).Lasting alive) :
    s.Fades alive ((Operation.newScope l enclosing depth).perform s)
      ∨ ∃ b, enclosing = some b ∧ s.parent l = none
        ∧ (s.linked l (s.layoutOf b)).Fades alive ((Operation.newScope l enclosing depth).perform s) := by
  obtain ⟨hheld, he⟩ := held_optional h
  have hl := hs.wellFormed.roots _ hheld
  obtain ⟨-, hready⟩ := advances_newScope hs hheld he depth
  -- Holding the new activation makes nothing else alive.
  have hstill : ((newScope l enclosing depth).run.run s).2.Still
        ((Operation.newScope l enclosing depth).perform s)
      ∧ ((newScope l enclosing depth).run.run s).2.Lasting alive := by
    rw [Operation.perform] at hlasting ⊢
    generalize (newScope l enclosing depth).run.run s = result at hready hlasting ⊢
    rcases result with ⟨e | a, s₁⟩
    · exact ⟨.refl s₁, hlasting⟩
    · refine ⟨still_of_eq rfl rfl rfl rfl, fun k hk hold => ?_⟩
      have hlive := live_of_live_acquire (hready a rfl).refs (hlasting k hk hold)
      exact hlive.resolve_left (by rintro ⟨⟩)
  obtain ⟨hstill, hlasting⟩ := hstill
  generalize (Operation.newScope l enclosing depth).perform s = s' at hstill ⊢
  rcases newScope_cases s l enclosing depth with hrun | ⟨e, hrun⟩ | ⟨b, rfl, hfree, hrun⟩ <;>
    rw [hrun] at hstill hlasting
  · exact Or.inl ((fades_enter hs hheld he hlasting).trans (hstill.fades _))
  · exact Or.inl (hstill.fades _)
  · have hp := hs.wellFormed.layoutOf (he b rfl)
    have hlink := ((Spares.refl s).linked hl hp).advances hs
    exact Or.inr ⟨b, rfl, hfree, (fades_enter (hlink.sound hs) (hlink.mem_roots hheld)
      (fun c hc => hlink.mem_roots (he c hc)) hlasting).trans (hstill.fades _)⟩

theorem rehangs_newScope (hs : s.Sound) {enclosing : Option ActivationId} {depth : Nat}
    (h : ∀ r ∈ (Operation.newScope l enclosing depth).operands, r ∈ s.roots) :
    Rehangs inserts s ((Operation.newScope l enclosing depth).perform s) := by
  have hnone : ((Operation.newScope l enclosing depth).perform s).Lasting fun _ => False := fun _ => False.elim
  rcases fades_newScope hs h hnone with hfades | ⟨b, rfl, hfree, hfades⟩
  · exact hfades.rehangs
  · obtain ⟨hl, he⟩ := held_optional h
    exact rehangs_linked hs.wellFormed (hs.wellFormed.roots _ hl) (hs.wellFormed.layoutOf (he b rfl)) hfree hfades

/-- A layout has been hung elsewhere, after a sweep. -/
theorem rehangs_rehung (hs : s.WellFormed) (hl : s.Allocated (.layout l)) {parent : Option LayoutId}
    (hp : ∀ p, parent = some p → s.Allocated (.layout p))
    (hlayouts : s₁.layouts = ((s.invalidateAll l).rehung l parent).layouts)
    (hleads : (s.invalidateAll l).Leads s₁) : Rehangs inserts s s₁ := by
  have hsw := s.swept_invalidateAll l
  have hgrows := ((Spares.refl s).invalidateAll l).leads.grows
  have hs' := ((Spares.refl s).invalidateAll l).leads.wellFormed hs
  have hlayout : ∀ k, s₁.layout k = ((s.invalidateAll l).rehung l parent).layout k := fun k => by
    rw [layout, hlayouts, ← layout]
  refine .hang l parent (fun k => ?_) (fun k _ hk c => ?_) fun h => ?_
  · rw [hlayout, enclosing_rehung (hgrows _ hl), (hsw.layout k).eq]
  · rw [hlayout, mem_children_rehung_iff fun p hq => hgrows _ (hp p hq), parent_eq_some_iff hs',
      (hsw.layout k).eq, (hsw.layout l).eq]
    refine or_congr_left (and_congr_right fun _ => not_congr (and_congr_left fun _ => ?_))
    exact and_iff_left_of_imp fun hlink => hleads.live hk (hgrows _ (hs.enclosing hlink))
  · have hswept : (s.invalidateAll l).ListsOnce := h.of_children fun k => by rw [(hsw.layout k).eq]
    exact (hswept.rehung l parent).of_children fun k => congrArg Layout.children (hlayout k)

theorem rehangs_relinkTo (hs : s.WellFormed) (hl : s.Allocated (.layout l)) {parent : Option LayoutId}
    (hp : ∀ p, parent = some p → s.Allocated (.layout p)) :
    Rehangs inserts s ((relinkTo l parent).run s).2 := by
  have hgrows := ((Spares.refl s).invalidateAll l).leads.grows
  rw [relinkTo_run]
  exact rehangs_rehung hs hl hp rfl
    ((Spares.refl _).rehung (hgrows _ hl) fun p hq => hgrows _ (hp p hq)).leads

theorem rehangs_setEnclosing (hs : s.WellFormed) (ha : Ref.activation a ∈ s.roots)
    {parent : Option ActivationId} (hp : ∀ b, parent = some b → Ref.activation b ∈ s.roots) :
    Rehangs inserts s ((setEnclosing a parent).run.run s).2 := by
  have hspares := (Spares.refl s).invalidateAll (s.layoutOf a)
  have houter : ∀ p, parent.map s.layoutOf = some p → s.Allocated (.layout p) := fun _ => hs.layoutOf_map hp
  rw [setEnclosing_run]
  split
  · refine rehangs_rehung hs (hs.layoutOf ha) houter rfl (Spares.setEnclosingLink ((Spares.refl _).rehung
      (hspares.leads.grows _ (hs.layoutOf ha)) fun p hq => hspares.leads.grows _ (houter p hq)) a parent
      fun b hb => live_of_mem_roots ?_).leads
    exact hspares.held ▸ hp b hb
  · exact .stay (fun _ => rfl) fun _ => rfl

theorem rehangs_attach (hs : s.WellFormed) (ha : Ref.activation a ∈ s.roots) {b : ActivationId}
    (hb : Ref.activation b ∈ s.roots) :
    Rehangs ((Operation.attach a b).Inserts s) s ((attach a b).run.run s).2 := by
  have hspares := spares_attach hs ha hb
  have hlive := (hspares.onward.live hb).layoutOf (hspares.leads.wellFormed hs)
  rw [hspares.layoutOf] at hlive
  have hcleared := (spares_cleared s (s.layoutOf a) (s.layoutOf b)).leads.grows
  have hsw := s.swept_cleared (s.layoutOf a) (s.layoutOf b)
  have hl := hs.layoutOf ha
  have hi := hs.layoutOf hb
  rw [attach_run] at hlive ⊢
  split
  · exact .stay (fun _ => rfl) fun _ => rfl
  · rename_i old hparent
    rw [hparent] at hlive
    have hgrows : ∀ r, s.Allocated r → ((s.cleared (s.layoutOf a) (s.layoutOf b)).inherited (s.layoutOf b)
        old).Allocated r := fun r hr => (Leads.allocated_modifyLayout _ _ _ _).2 (hcleared r hr)
    have hold := hs.enclosing (parent_eq_some hparent)
    have hsame : ∀ k, (((s.cleared (s.layoutOf a) (s.layoutOf b)).inherited (s.layoutOf b) old).layout
          k).enclosing = (s.layout k).enclosing
        ∧ (((s.cleared (s.layoutOf a) (s.layoutOf b)).inherited (s.layoutOf b) old).layout
          k).children = (s.layout k).children := fun k => by
      rw [part_inherited Layout.enclosing fun _ _ => rfl, part_inherited Layout.children fun _ _ => rfl,
        (hsw.layout k).eq]
      exact ⟨rfl, rfl⟩
    dsimp only at hlive ⊢
    generalize (s.cleared (s.layoutOf a) (s.layoutOf b)).inherited (s.layoutOf b) old = s₁ at hlive hgrows hsame ⊢
    refine .insert (s.layoutOf a) (s.layoutOf b) old ⟨rfl, rfl⟩ hparent hlive (fun k => ?_) (fun k c => ?_)
      fun h => ?_
    · rw [layout_setEnclosingLink, layout_setEnclosingLink, enclosing_spliced (hgrows _ hl) (hgrows _ hi),
        (hsame k).1]
    · rw [layout_setEnclosingLink, layout_setEnclosingLink,
        mem_children_spliced_iff (hgrows _ hi) (hgrows _ hold), (hsame k).2]
    · have hfirst : s₁.ListsOnce := h.of_children fun k => (hsame k).2
      refine (hfirst.spliced (s.layoutOf a) (s.layoutOf b) old).of_children fun k => ?_
      rw [layout_setEnclosingLink, layout_setEnclosingLink]

theorem rehangs_detachEnclosing (hs : s.WellFormed) (ha : Ref.activation a ∈ s.roots) :
    Rehangs inserts s ((detachEnclosing a).run.run s).2 := by
  have hl := hs.layoutOf ha
  rw [detachEnclosing_run]
  split
  · exact .stay (fun _ => rfl) fun _ => rfl
  · rename_i old hparent
    have hsw := s.swept_invalidateNames old (s.layout old).identifiers
    have hgrows := ((Spares.refl s).invalidateNames old (s.layout old).identifiers).leads.grows
    have hold := hs.enclosing (parent_eq_some hparent)
    have houter : ∀ g, s.parent old = some g → s.Allocated (.layout g) := fun g hg =>
      hs.enclosing (parent_eq_some hg)
    dsimp only
    generalize hmid : (s.invalidateNames old (s.layout old).identifiers).bypassed (s.layoutOf a) old
      (s.parent old) = s₁
    have hrehangs : ∀ s', s'.layouts = s₁.layouts → Rehangs inserts s s' := fun s' hlayouts => by
      have hlayout : ∀ k, s'.layout k = s₁.layout k := fun k => by rw [layout, hlayouts, ← layout]
      refine .remove (s.layoutOf a) old hparent (fun k => ?_) (fun k c => ?_) fun h => ?_
      · rw [hlayout, ← hmid, enclosing_bypassed (hgrows _ hl) (hgrows _ hold), (hsw.layout k).eq]
      · rw [hlayout, ← hmid, mem_children_bypassed_iff fun g hg => hgrows _ (houter g hg), (hsw.layout k).eq]
      · have hswept : (s.invalidateNames old (s.layout old).identifiers).ListsOnce :=
          h.of_children fun k => by rw [(hsw.layout k).eq]
        exact (hswept.bypassed (s.layoutOf a) old (s.parent old)).of_children fun k => by rw [hlayout, hmid]
    split <;> exact hrehangs _ rfl

end Rehanging

/-- **Every operation stays, hangs, inserts or removes.** -/
theorem rehangs_perform (hs : s.Sound) {op : Operation} (h : ∀ r ∈ op.operands, r ∈ s.roots) :
    Rehangs (op.Inserts s) s (op.perform s) := by
  have hwf := hs.wellFormed
  by_cases hlooks : op.LooksUp
  · have hadds := adds_perform hs h hlooks
    exact .stay hadds.enclosing hadds.children
  by_cases hlinks : op.Relinks
  · cases op with
    | initializeEnclosing l parent =>
        obtain ⟨hl, hp⟩ := held_optional h
        exact rehangs_initializeEnclosing hwf (hwf.roots _ hl) fun p hin => hwf.roots _ (hp p hin)
    | relink l parent =>
        obtain ⟨hl, hp⟩ := held_optional h
        exact rehangs_relinkTo hwf (hwf.roots _ hl) fun p hin => hwf.roots _ (hp p hin)
    | newScope l enclosing depth => exact rehangs_newScope hs h
    | setEnclosing a parent =>
        obtain ⟨ha, hp⟩ := held_optional h
        exact rehangs_setEnclosing hwf ha hp
    | attach a inserted =>
        simp only [Operation.operands, List.forall_mem_cons] at h
        exact rehangs_attach hwf h.1 h.2.1
    | detachEnclosing a => exact rehangs_detachEnclosing hwf (h _ List.mem_cons_self)
    | _ => exact hlinks.elim
  · have hnone : (op.perform s).Lasting fun _ => False := fun _ => False.elim
    exact (fades_perform hs h hlinks hlooks hnone).rehangs

/-! ## Registers -/

/-- A layout with a parent alive is among its children. -/
def Registered (s : Store) : Prop :=
  ∀ p, s.Live (.layout p) → ∀ c, (s.layout c).enclosing = some p → c ∈ (s.layout p).children

/-- No layout is its own parent. -/
def Loopless (s : Store) : Prop := ∀ k < s.layouts.size, s.parent ⟨k⟩ ≠ some ⟨k⟩

instance (s : Store) : Decidable s.Loopless := inferInstanceAs (Decidable (∀ k < s.layouts.size, _))

theorem Loopless.ne (h : s.Loopless) (hs : s.WellFormed) (l : LayoutId) : s.parent l ≠ some l :=
  fun hloop => h l.index (hs.enclosing (parent_eq_some hloop)) hloop

/-- **A change leaves every layout registered**, unless one is inserted above itself or above its own child. -/
theorem Registered.rehangs {inserts : LayoutId → LayoutId → Prop} (h : s.Registered)
    (hr : Rehangs inserts s s₁) (hs : s.WellFormed) (hs₁ : s₁.WellFormed)
    (hback : ∀ p, s₁.Live (.layout p) → s.Allocated (.layout p) → s.Live (.layout p))
    (hloop : s₁.Loopless) : s₁.Registered := by
  intro p hp c hlink
  have hold : (s.layout c).enclosing = some p → c ∈ (s.layout p).children := fun hin =>
    h p (hback p hp (hs.enclosing hin)) c hin
  cases hr with
  | stay henclosing hchildren =>
      rw [henclosing] at hlink
      rw [hchildren]
      exact hold hlink
  | hang l parent henclosing hchildren _ =>
      rw [henclosing] at hlink
      rw [hchildren p (hback p hp) hp]
      split at hlink
      · rename_i hc
        exact Or.inr ⟨hlink, hc⟩
      · rename_i hc
        exact Or.inl ⟨hold hlink, fun h => hc h.2⟩
  | insert l i old _ hparent hlive henclosing hchildren _ =>
      have hself : ∀ {q}, (s₁.layout i).enclosing = some q → i ≠ q := by
        rintro q hq rfl
        exact hloop.ne hs₁ i ((parent_eq_some_iff hs₁).2 ⟨hq, hlive⟩)
      have hil : i ≠ l := fun heq => hself ((henclosing i).trans (if_pos heq)) rfl
      have hiold : i ≠ old := hself ((henclosing i).trans ((if_neg hil).trans (if_pos rfl)))
      rw [henclosing] at hlink
      rw [hchildren]
      split at hlink
      · rename_i hc
        obtain rfl := Option.some.inj hlink
        exact Or.inl ⟨Or.inr ⟨rfl, hc⟩, fun h => hiold h.1⟩
      · rename_i hcl
        split at hlink
        · rename_i hc
          exact Or.inr ⟨(Option.some.inj hlink).symm, hc⟩
        · exact Or.inl ⟨Or.inl (hold hlink), fun h => hcl h.2⟩
  | remove l old hparent henclosing hchildren _ =>
      rw [henclosing] at hlink
      rw [hchildren]
      split at hlink
      · simp at hlink
      · rename_i hco
        split at hlink
        · rename_i hc
          exact Or.inr ⟨hlink, hc⟩
        · rename_i hcl
          exact Or.inl ⟨⟨hold hlink, fun h => hcl h.2⟩, fun h => hco h.2⟩

theorem registered_perform (hs : s.Sound) {op : Operation} (h : ∀ r ∈ op.operands, r ∈ s.roots)
    (hreg : s.Registered) (hloop : (op.perform s).Loopless) : (op.perform s).Registered :=
  have hprogress := progress_perform hs h
  hreg.rehangs (rehangs_perform hs h) hs.wellFormed hprogress.sound.wellFormed hprogress.back hloop

theorem registered_new (names : List String) : (Store.new names).Registered := by
  intro p hp
  exact absurd (hp.allocated (sound_new names).wellFormed) (Nat.not_lt_zero _)

theorem Elsewhere.registered (h : s.Elsewhere s₁) (hs : s.Sound) (hreg : s.Registered) : s₁.Registered := by
  intro p hp c hlink
  rw [h.layout] at hlink ⊢
  exact hreg p (h.leads.live hp (hs.wellFormed.enclosing hlink)) c hlink

end Store

end ScopeCall
