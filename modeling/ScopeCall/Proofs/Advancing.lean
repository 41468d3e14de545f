import ScopeCall.Proofs.Bindings
import ScopeCall.Proofs.Running

/-!
# `ScopeCall.Proofs.Advancing` — operations on scopes keep stable values in step

A store is sound if its references lead to objects that exist and its tokens are in step. Each operation
takes a sound store to a sound store, provided that the objects passed to it are held from outside; it
leads on, and slots and tokens only become what they may become.

## Contents
- **Advancing.** `Store.Sound`, `Store.Onward` and `Store.Advances`.
- **Links.** Every change of the nesting spares the bindings.
- **Slots and values.** `findOrAddSlot`, `recordWrite`, `store`, `write`, `empty` and `remove`.
- **Activations.** `newScope` leaves the slots of a layout claimed anew empty.
- **Looking up.** `Walks`, a walk as a relation with a case for each way to go on; `resolve` and `cachedRead` spare the
  bindings.
-/

namespace ScopeCall

namespace Store

/-! ## Advancing -/

/-- References lead to objects that exist, and tokens are in step. -/
structure Sound (s : Store) : Prop where
  wellFormed : s.WellFormed
  bindings : s.Bindings

/-- `s'` comes after `s`, with the same held from outside. -/
structure Onward (s s' : Store) : Prop where
  leads : s.Leads s'
  held : s'.roots = s.roots
  later : s.Later s'

/-- `s'` comes after `s`, and is sound if `s` is. -/
structure Advances (s s' : Store) : Prop extends s.Onward s' where
  bindings : s'.Bindings

variable {s s₁ s₂ : Store}

theorem Onward.refl (s : Store) : s.Onward s := ⟨.refl s, rfl, .refl s⟩

theorem Onward.trans (hs : s.WellFormed) (h : s.Onward s₁) (h' : s₁.Onward s₂) : s.Onward s₂ :=
  ⟨h.leads.trans hs h'.leads, h'.held.trans h.held,
    h.later.trans hs (fun t => h.leads.grows (.stable t)) h'.later⟩

theorem Advances.sound (h : s.Advances s₁) (hs : s.Sound) : s₁.Sound :=
  ⟨h.leads.wellFormed hs.wellFormed, h.bindings⟩

theorem Advances.refl (hs : s.Sound) : s.Advances s := ⟨.refl s, hs.bindings⟩

theorem Advances.trans (hs : s.Sound) (h : s.Advances s₁) (h' : s₁.Advances s₂) : s.Advances s₂ :=
  ⟨h.toOnward.trans hs.wellFormed h'.toOnward, h'.bindings⟩

theorem Spares.onward (h : s.Spares s₁) : s.Onward s₁ := ⟨h.leads, h.held, h.later⟩

theorem Spares.advances (h : s.Spares s₁) (hs : s.Sound) : s.Advances s₁ :=
  ⟨h.onward, h.tracks hs.wellFormed hs.bindings⟩

theorem Aside.advances (h : s.Aside s₁) (hs : s.Sound) : s.Advances s₁ :=
  ((Spares.refl s).aside h).advances hs

/-- What is held before an operation is alive after it. -/
theorem Onward.live (h : s.Onward s₁) {r : Ref} (hr : r ∈ s.roots) : s₁.Live r :=
  live_of_mem_roots (h.held ▸ hr)

theorem Onward.mem_roots (h : s.Onward s₁) {r : Ref} (hr : r ∈ s.roots) : r ∈ s₁.roots :=
  h.held ▸ hr

/-- Where no slot is out of step, nothing is pending. -/
theorem Tracks.settle {pending pending' : LayoutId → Nat → Prop} (h : s.Tracks pending)
    (hagree : ∀ a i t, s.Live (.activation a) → s.token (s.layoutOf a) i = some t →
      pending (s.layoutOf a) i → ¬ pending' (s.layoutOf a) i →
      s.content a i = .ofOption (s.stable t).value) : s.Tracks pending' where
  kind := h.kind
  valid := h.valid
  unshared := h.unshared
  owned := h.owned
  unclaimed := h.unclaimed
  fits := h.fits
  unique := h.unique
  agree a i t ha ht hnot := by
    by_cases hp : pending (s.layoutOf a) i
    · exact hagree a i t ha ht hp hnot
    · exact h.agree a i t ha ht hp

/-! ## Links -/

theorem parent_eq_some {l p : LayoutId} (h : s.parent l = some p) :
    (s.layout l).enclosing = some p := by
  obtain ⟨q, hq, hup⟩ := Option.bind_eq_some_iff.1 h
  rw [hq]
  simp only [upgradeLayout, Option.ite_none_right_eq_some, Option.some.injEq] at hup
  rw [hup.2]

theorem WellFormed.enclosing (hs : s.WellFormed) {l p : LayoutId}
    (h : (s.layout l).enclosing = some p) : s.Allocated (.layout p) := by
  refine hs.weak l _ ?_
  simp [Layout.weakRefs, h]

theorem Spares.relinked (h : s.Spares s₁) (l : LayoutId) (parent : Option LayoutId)
    (hp : ∀ p, parent = some p → s.Allocated (.layout p)) : s.Spares (s₁.relinked l parent) := by
  have hmid := (h.aside (aside_invalidate s₁ (s₁.layout l).enclosingGuard)).aside
    (aside_addGuard _ ((s₁.layout l).label ++ " enclosing"))
  refine hmid.modifyLayout rfl rfl rfl (fun r hr => Or.inl hr) fun r hr => ?_
  simp only [Layout.weakRefs, Layout.linkTo, List.mem_append, List.mem_map,
    Option.mem_toList] at hr ⊢
  rcases hr with (hr | ⟨p, hp', rfl⟩) | hr
  · exact Or.inl (Or.inl (Or.inl hr))
  · exact Or.inr (hmid.leads.grows _ (hp p hp'))
  · exact Or.inl (Or.inr hr)

theorem Spares.addChild (h : s.Spares s₁) (p : LayoutId) {l : LayoutId}
    (hl : s.Allocated (.layout l)) : s.Spares (s₁.addChild p l) := by
  refine h.modifyLayout ?_ ?_ ?_ (fun r hr => ?_) (fun r hr => ?_)
  · rw [Layout.addChild]
    split <;> rfl
  · rw [Layout.addChild]
    split <;> rfl
  · rw [Layout.addChild]
    split <;> rfl
  · rw [Layout.addChild] at hr
    split at hr <;> exact Or.inl hr
  · rw [Layout.addChild] at hr
    split at hr
    · exact Or.inl hr
    · simp only [Layout.weakRefs, List.map_append, List.map_cons, List.map_nil, List.mem_append,
        List.mem_singleton] at hr ⊢
      rcases hr with ((hr | rfl) | hr) | hr
      · exact Or.inl (Or.inl (Or.inl hr))
      · exact Or.inr (h.leads.grows _ hl)
      · exact Or.inl (Or.inl (Or.inr hr))
      · exact Or.inl (Or.inr hr)

theorem Spares.removeChild (h : s.Spares s₁) (p l : LayoutId) : s.Spares (s₁.removeChild p l) := by
  refine h.modifyLayout rfl rfl rfl (fun r hr => Or.inl hr) fun r hr => Or.inl ?_
  simp only [Layout.weakRefs, Layout.removeChild, List.mem_append, List.mem_map] at hr ⊢
  rcases hr with (⟨c, hc, rfl⟩ | hr) | hr
  · exact Or.inl (Or.inl ⟨c, List.mem_of_mem_filter hc, rfl⟩)
  · exact Or.inl (Or.inr hr)
  · exact Or.inr hr

theorem Spares.inherit (h : s.Spares s₁) (l : LayoutId) (names : List Name) :
    s.Spares (s₁.modifyLayout l (·.inherit names)) :=
  h.modifyLayout rfl rfl rfl (fun _ hr => Or.inl hr) (fun _ hr => Or.inl hr)

theorem spares_initializeEnclosing {l : LayoutId} {parent : Option LayoutId}
    (hl : s.Allocated (.layout l)) (hp : ∀ p, parent = some p → s.Allocated (.layout p)) :
    s.Spares ((initializeEnclosing l parent).run.run s).2 := by
  rw [initializeEnclosing_run]
  split
  · rename_i p _
    exact ((Spares.refl s).relinked l _ hp).addChild p hl
  · split <;> exact Spares.refl s

theorem Spares.rehung (h : s.Spares s₁) {l : LayoutId} {parent : Option LayoutId}
    (hl : s.Allocated (.layout l)) (hp : ∀ p, parent = some p → s.Allocated (.layout p)) :
    s.Spares (s₁.rehung l parent) := by
  have hlinked := h.relinked l parent hp
  have hunhooked : s.Spares (s₁.unhooked l parent) := by
    unfold Store.unhooked
    split
    · exact hlinked.removeChild _ l
    · exact hlinked
  cases parent with
  | none => exact hunhooked
  | some p => exact hunhooked.addChild p hl

theorem spares_relinkTo {l : LayoutId} {parent : Option LayoutId}
    (hl : s.Allocated (.layout l)) (hp : ∀ p, parent = some p → s.Allocated (.layout p)) :
    s.Spares ((relinkTo l parent).run s).2 := by
  rw [relinkTo_run]
  exact ((Spares.refl s).invalidateAll l).rehung hl hp

theorem Spares.spliced (h : s.Spares s₁) {l inserted old : LayoutId} (hl : s.Allocated (.layout l))
    (hi : s.Allocated (.layout inserted)) (ho : s.Allocated (.layout old)) :
    s.Spares (s₁.spliced l inserted old) := by
  have hlinked := (h.relinked inserted (some old) (by rintro p ⟨rfl⟩; exact ho)).relinked l
    (some inserted) (by rintro p ⟨rfl⟩; exact hi)
  exact ((hlinked.addChild inserted hl).removeChild old l).addChild old hi

theorem spares_insertEnclosing (hs : s.WellFormed) {l inserted : LayoutId}
    (hl : s.Allocated (.layout l)) (hi : s.Allocated (.layout inserted)) :
    s.Spares ((insertEnclosing l inserted).run.run s).2 := by
  rw [insertEnclosing_run]
  split
  · exact Spares.refl s
  · rename_i old hold
    have ho := hs.enclosing (parent_eq_some hold)
    have hswept := ((Spares.refl s).invalidateAll inserted).invalidateNames l
      ((s.invalidateAll inserted).layout inserted).identifiers
    exact (hswept.inherit inserted _).spliced hl hi ho

theorem Spares.bypassed (h : s.Spares s₁) {l : LayoutId} (hl : s.Allocated (.layout l))
    (old : LayoutId) {grandparent : Option LayoutId}
    (hg : ∀ p, grandparent = some p → s.Allocated (.layout p)) :
    s.Spares (s₁.bypassed l old grandparent) := by
  have hlinked := ((h.relinked l grandparent hg).relinked old none (by simp)).removeChild old l
  cases grandparent with
  | none => exact hlinked
  | some g => exact (hlinked.removeChild g old).addChild g hl

theorem spares_removeEnclosing (hs : s.WellFormed) {l : LayoutId} (hl : s.Allocated (.layout l)) :
    s.Spares ((removeEnclosing l).run.run s).2 := by
  rw [removeEnclosing_run]
  split
  · exact Spares.refl s
  · rename_i old _
    exact ((Spares.refl s).invalidateNames old (s.layout old).identifiers).bypassed hl old
      fun p hp => hs.enclosing (parent_eq_some hp)

theorem Spares.setEnclosingLink (h : s.Spares s₁) (a : ActivationId) (parent : Option ActivationId)
    (hp : ∀ p, parent = some p → s.Live (.activation p)) :
    s.Spares (s₁.setEnclosingLink a parent) := by
  refine h.modifyActivation rfl rfl fun r hr => ?_
  simp only [Activation.refs, List.mem_append, List.mem_cons, Option.mem_toList] at hr ⊢
  rcases hr with (rfl | hr) | hr
  · exact Or.inl (Or.inl (Or.inl rfl))
  · obtain ⟨p, rfl, rfl⟩ := Option.map_eq_some_iff.1 hr
    exact Or.inr (Or.inl (hp p rfl))
  · exact Or.inl (Or.inr hr)

theorem Live.enclosing (hs : s.WellFormed) {a p : ActivationId} (ha : s.Live (.activation a))
    (hp : (s.activation a).enclosing = some p) : s.Live (.activation p) := by
  refine ha.of_mem_refs ?_
  rw [refs_activation (ha.allocated hs)]
  simp [Activation.refs, hp]

theorem Live.layoutOf (hs : s.WellFormed) {a : ActivationId} (ha : s.Live (.activation a)) :
    s.Live (.layout (s.layoutOf a)) := by
  refine ha.of_mem_refs ?_
  rw [refs_activation (ha.allocated hs)]
  exact List.mem_append_left _ List.mem_cons_self

theorem WellFormed.layoutOf (hs : s.WellFormed) {a : ActivationId} (ha : Ref.activation a ∈ s.roots) :
    s.Allocated (.layout (s.layoutOf a)) :=
  ((live_of_mem_roots ha).layoutOf hs).allocated hs

theorem WellFormed.layoutOf_map (hs : s.WellFormed) {e : Option ActivationId}
    (he : ∀ b, e = some b → Ref.activation b ∈ s.roots) {p : LayoutId} (hp : e.map s.layoutOf = some p) :
    s.Allocated (.layout p) := by
  obtain ⟨b, hb, rfl⟩ := Option.map_eq_some_iff.1 hp
  exact hs.layoutOf (he b hb)

/-- Moving an activation of a singleton layout spares the bindings. -/
theorem spares_setEnclosing (hs : s.WellFormed) {a : ActivationId} {parent : Option ActivationId}
    (ha : s.Live (.activation a)) (hp : ∀ p, parent = some p → s.Live (.activation p)) :
    s.Spares ((setEnclosing a parent).run.run s).2 := by
  have hlayout : ∀ {b}, s.Live (.activation b) → s.Allocated (.layout (s.layoutOf b)) :=
    fun hb => (hb.layoutOf hs).allocated hs
  rw [setEnclosing, requireSingleton_bind_run]
  split
  · rw [run_get_bind, run_lift_bind]
    refine (spares_relinkTo (hlayout ha) ?_).setEnclosingLink a parent hp
    intro l hl
    obtain ⟨p, rfl, rfl⟩ := Option.map_eq_some_iff.1 hl
    exact hlayout (hp p rfl)
  · exact Spares.refl s

/-- The links of activations that go with inserting a scope. -/
theorem Spares.insertLinks (h : s.Spares s₁) (hs : s.WellFormed) {a inserted : ActivationId}
    (ha : Ref.activation a ∈ s.roots) (hi : Ref.activation inserted ∈ s.roots) :
    s.Spares ((s₁.setEnclosingLink a (some inserted)).setEnclosingLink inserted
      (s₁.activation a).enclosing) := by
  have hlinked := h.setEnclosingLink a (some inserted) (by rintro p ⟨rfl⟩; exact live_of_mem_roots hi)
  refine hlinked.setEnclosingLink inserted _ fun p hp => ?_
  have ha₁ : s₁.Live (.activation a) := live_of_mem_roots (h.held ▸ ha)
  exact h.live_activation hs (ha₁.enclosing (h.leads.wellFormed hs) hp)

/-- The links of activations that go with taking out the parent of a scope. -/
theorem Spares.removeLinks (h : s.Spares s₁) (hs : s.WellFormed) {a : ActivationId}
    (ha : Ref.activation a ∈ s.roots) :
    s.Spares (match (s₁.activation a).enclosing with
      | none   => s₁.setEnclosingLink a none
      | some o => ((s₁.setEnclosingLink a none).setEnclosingLink o none).setEnclosingLink a
          ((s₁.setEnclosingLink a none).activation o).enclosing) := by
  have hs₁ := h.leads.wellFormed hs
  have ha₁ : s₁.Live (.activation a) := live_of_mem_roots (h.held ▸ ha)
  have hnone := h.setEnclosingLink a none (by simp)
  cases ho : (s₁.activation a).enclosing with
  | none => exact hnone
  | some o =>
      have ho₁ := ha₁.enclosing hs₁ ho
      refine (hnone.setEnclosingLink o none (by simp)).setEnclosingLink a _ fun g hg => ?_
      have hg₁ : (s₁.activation o).enclosing = some g := by
        rw [Store.setEnclosingLink, activation_modifyActivation] at hg
        split at hg
        · simp at hg
        · exact hg
      exact h.live_activation hs (ho₁.enclosing hs₁ hg₁)

/-- Inserting an activation between another and its parent spares the bindings. -/
theorem spares_attach (hs : s.WellFormed) {a inserted : ActivationId}
    (ha : Ref.activation a ∈ s.roots) (hi : Ref.activation inserted ∈ s.roots) :
    s.Spares ((attach a inserted).run.run s).2 := by
  have hinsert := spares_insertEnclosing hs (hs.layoutOf ha) (hs.layoutOf hi)
  rw [attach, run_get_bind, run_bind]
  generalize (insertEnclosing (s.layoutOf a) (s.layoutOf inserted)).run.run s = result
    at hinsert ⊢
  rcases result with ⟨e | _, s₁⟩
  · exact hinsert
  · exact hinsert.insertLinks hs ha hi

/-- Taking the parent of an activation out of the chain spares the bindings. -/
theorem spares_detachEnclosing (hs : s.WellFormed) {a : ActivationId}
    (ha : Ref.activation a ∈ s.roots) : s.Spares ((detachEnclosing a).run.run s).2 := by
  have hremove := spares_removeEnclosing hs (hs.layoutOf ha)
  rw [detachEnclosing, run_get_bind, run_bind]
  generalize (removeEnclosing (s.layoutOf a)).run.run s = result at hremove ⊢
  rcases result with ⟨e | _, s₁⟩
  · exact hremove
  · have hlinks := hremove.removeLinks hs ha
    dsimp only
    rw [run_get_bind, run_modify_bind]
    cases ho : (s₁.activation a).enclosing <;> rw [ho] at hlinks <;> exact hlinks

/-! ## Slots and values -/

theorem Widens.of_addSlot {l : LayoutId} {info : SlotInfo} (hl : s.Allocated (.layout l))
    (h : s.Leads s₁) (hlayouts : s₁.layouts = s.layouts) (hheld : s₁.roots = s.roots)
    (hactivations : s₁.activations = s.activations) (hlookups : s₁.lookups = s.lookups)
    (hcaches : s₁.caches = s.caches) (hcontexts : s₁.contexts = s.contexts)
    (htracked : ∀ n, info.stable = some n → (s.layout l).kind.isSingleton = true
      ∧ ¬ s.Allocated (.stable n) ∧ s₁.Allocated (.stable n) ∧ (s₁.stable n).value = none
      ∧ s₁.stableValid n = true)
    (hstable : ∀ u, s.Allocated (.stable u) → s₁.stable u = s.stable u)
    (hbounded : ∀ u, s₁.Allocated (.stable u) → s.Allocated (.stable u) ∨ info.stable = some u) :
    s.Widens (s₁.modifyLayout l (·.addSlot info)) l info := by
  have hlayout : ∀ k, s₁.layout k = s.layout k := fun k => by simp only [Store.layout, hlayouts]
  have hl₁ : s₁.Allocated (.layout l) := h.grows _ hl
  exact {
    leads := by
      refine h.modifyLayout (fun r hr => ?_) fun r hr => Or.inl hr
      simp only [Layout.refs, Layout.addSlot, Array.toList_push, List.filterMap_append,
        List.mem_append, List.filterMap_cons, List.filterMap_nil] at hr ⊢
      rcases hr with (hr | hr) | hr
      · exact Or.inl (Or.inl hr)
      · cases hn : info.stable with
        | none => simp [hn] at hr
        | some n =>
            obtain rfl : r = .stable n := by simpa [hn] using hr
            exact Or.inr (Or.inr ⟨(htracked n hn).2.1, (htracked n hn).2.2.1⟩)
      · exact Or.inl (Or.inr hr)
    held := hheld
    activations := hactivations
    lookups := hlookups
    caches := hcaches
    contexts := hcontexts
    layout k := by
      rw [← hlayout]
      exact s₁.layout_modifyLayout_congr Layout.bare l k _ rfl
    slots := by
      rw [layout_modifyLayout_self _ _ hl₁, hlayout]
      rfl
    others k hk := by rw [layout_modifyLayout_of_ne _ _ hk, hlayout]
    tracked n hn := ⟨(htracked n hn).1, (htracked n hn).2.1, (htracked n hn).2.2.2⟩
    stable := hstable
    bounded := hbounded }

/-- Making a slot adds it at the end of its layout, tracked if the layout is a singleton's. -/
theorem widens_widened {l : LayoutId} (hl : s.Allocated (.layout l)) (n : Name) :
    ∃ info, info.name = n ∧ s.Widens (s.widened l n) l info := by
  have hguards : ∀ s' : Store, s.Leads s' → ∀ label label', s.Leads
      ((s'.addGuard label).addGuard label') := fun s' h _ _ =>
    (h.aside (aside_addGuard _ _)).aside (aside_addGuard _ _)
  rw [widened]
  by_cases hk : (s.layout l).kind.isSingleton = true
  · simp only [hk, if_true]
    refine ⟨_, ?_, Widens.of_addSlot hl (hguards _ ((Leads.refl s).addStable _ (by simp)) _ _)
      rfl rfl rfl rfl rfl rfl ?_ ?_ ?_⟩
    · rfl
    · rintro n ⟨rfl⟩
      refine ⟨hk, Nat.lt_irrefl _, ?_, ?_, ?_⟩
      · simp [Allocated, addStable, addGuard]
      · exact congrArg StableValue.value ((stable_addStable s _ none _).trans (if_pos rfl))
      · exact congrArg (fun v : StableValue => v.guard.valid)
          ((stable_addStable s _ none _).trans (if_pos rfl))
    · intro u hu
      exact (stable_addStable s _ none u).trans (if_neg (Nat.ne_of_lt hu))
    · intro u hu
      simp only [Allocated, addStable, addGuard, Array.size_push] at hu ⊢
      rcases Nat.lt_succ_iff_lt_or_eq.1 hu with h | h
      · exact Or.inl h
      · exact Or.inr (congrArg some (congrArg StableId.mk h.symm))
  · simp only [hk, Bool.false_eq_true, if_false]
    refine ⟨_, ?_, Widens.of_addSlot hl (hguards _ (Leads.refl s) _ _) rfl rfl rfl rfl rfl rfl
      (fun _ hn => by simp at hn) (fun _ _ => rfl) (fun _ hu => Or.inl hu)⟩
    rfl

/-- Recording a value leaves the token as it is if it describes the value already, and replaces it
    otherwise. -/
theorem recordWrite_cases (hs : s.WellFormed) (l : LayoutId) (i : Nat) {v : Option Value}
    (hv : ∀ r ∈ (v.map Value.refs).getD [], s.Live r) :
    (((recordWrite l i v).run s).2 = s ∧ ((recordWrite l i v).run s).1 = false
        ∧ ∀ t, s.token l i = some t → (s.stable t).value = v)
      ∨ ∃ t new, s.token l i = some t ∧ (s.stable t).value ≠ v
        ∧ s.Retracks ((recordWrite l i v).run s).2 l i new v
        ∧ ((recordWrite l i v).run s).1 = ((s.stable t).value.isNone && v.isSome) := by
  rw [recordWrite_run]
  cases hslot : s.slot? l i with
  | none => exact Or.inl ⟨rfl, rfl, fun t ht => by simp [token, hslot] at ht⟩
  | some info =>
      dsimp only
      cases hstable : info.stable with
      | none =>
          exact Or.inl ⟨rfl, rfl, fun t ht => by simp [token, hslot, hstable] at ht⟩
      | some t =>
          have htoken : s.token l i = some t := token_eq_some.2 ⟨info, hslot, hstable⟩
          dsimp only
          by_cases hvalue : (s.stable t).value = v
          · simp only [if_pos hvalue]
            refine Or.inl ⟨trivial, trivial, fun u hu => ?_⟩
            rw [← hvalue, Option.some.inj (hu.symm.trans htoken)]
          · simp only [if_neg hvalue]
            obtain ⟨new, hnew⟩ := retracks_replaceStable hs hslot hstable hv
            exact Or.inr ⟨t, new, htoken, hvalue, hnew, rfl⟩

theorem Retracks.onward {l : LayoutId} {i : Nat} {new : Option StableId} {v : Option Value}
    (h : s.Retracks s₁ l i new v) (hs : s.WellFormed)
    (ht : new ≠ none → s.token l i ≠ none) : s.Onward s₁ :=
  ⟨h.leads, h.held, h.later hs ht⟩

theorem onward_setContent {a : ActivationId} {i : Nat} {c : SlotContent}
    (hc : ∀ v ∈ c.values, ∀ r ∈ v.refs, s.Live r) : s.Onward (s.setContent a i c) :=
  ⟨leads_setContent (Leads.refl s) fun v hv r hr => Or.inl (hc v hv r hr), rfl,
    later_setContent s a i c⟩

/-- What a slot of a live activation holds refers to objects alive. -/
theorem Live.content (hs : s.WellFormed) {a : ActivationId} (ha : s.Live (.activation a)) {i : Nat}
    {v : Value} (hv : v ∈ (s.content a i).values) {r : Ref} (hr : r ∈ v.refs) : s.Live r := by
  refine ha.of_mem_refs ?_
  rw [refs_activation (ha.allocated hs), Activation.refs, List.mem_append, List.mem_flatMap]
  refine Or.inr ⟨s.content a i, ?_, List.mem_flatMap.2 ⟨v, hv, hr⟩⟩
  simp only [Store.content, Activation.content] at hv ⊢
  cases hc : (s.activation a).contents[i]? with
  | none => simp [hc, SlotContent.values] at hv
  | some c => simpa using Array.mem_of_getElem? hc

theorem advances_findOrAddSlot (hs : s.Sound) {l : LayoutId} (hl : s.Allocated (.layout l))
    (n : Name) : s.Advances ((findOrAddSlot l n).run s).2 := by
  rw [findOrAddSlot_run]
  split
  · exact Advances.refl hs
  · obtain ⟨info, -, h⟩ := widens_widened hl n
    have hwide : s.Advances (s.widened l n) :=
      ⟨⟨h.leads, h.held, h.later⟩, h.tracks hs.wellFormed hs.bindings⟩
    exact hwide.trans hs (((Spares.refl _).invalidateNames l [n]).advances (hwide.sound hs))

/-- A tracked slot of a live activation belongs to a layout that has been claimed, by no other. -/
theorem Tracks.owner {pending : LayoutId → Nat → Prop} (h : s.Tracks pending) {a : ActivationId}
    (ha : s.Live (.activation a)) {i : Nat} {t : StableId} (ht : s.token (s.layoutOf a) i = some t) :
    (s.layout (s.layoutOf a)).singleton = some a :=
  h.unique a ha (h.kind _ i t ht)

theorem Tracks.eq_of_token {pending : LayoutId → Nat → Prop} (h : s.Tracks pending)
    {a b : ActivationId} (ha : s.Live (.activation a)) (hb : s.Live (.activation b)) {i : Nat}
    {t : StableId} (ht : s.token (s.layoutOf a) i = some t) (hl : s.layoutOf b = s.layoutOf a) :
    b = a := by
  have hb' := h.owner hb (hl ▸ ht)
  rw [hl] at hb'
  exact Option.some.inj (hb'.symm.trans (h.owner ha ht))

/-- Recording a value and then storing it keeps the slot in step. -/
theorem advances_recordWrite_setContent (hs : s.Sound) {a : ActivationId}
    (ha : Ref.activation a ∈ s.roots) {i : Nat} (hi : i < (s.layout (s.layoutOf a)).slots.size)
    {v : Option Value} (hv : ∀ r ∈ (v.map Value.refs).getD [], r ∈ s.roots) :
    s.Advances (((recordWrite (s.layoutOf a) i v).run s).2.setContent a i (.ofOption v)) := by
  have hlive := live_of_mem_roots ha
  have hvalues : ∀ w ∈ (SlotContent.ofOption v).values, ∀ r ∈ w.refs, r ∈ s.roots := by
    intro w hw r hr
    cases v with
    | none => simp [SlotContent.ofOption, SlotContent.values] at hw
    | some v =>
        obtain rfl : w = v := by simpa [SlotContent.ofOption, SlotContent.values] using hw
        exact hv r hr
  rcases recordWrite_cases hs.wellFormed (s.layoutOf a) i
      (fun r hr => live_of_mem_roots (hv r hr)) with
    ⟨hsame, -, hvalue⟩ | ⟨t, new, ht, -, hre, -⟩
  · rw [hsame]
    have hset := onward_setContent (a := a) (i := i)
      fun w hw r hr => live_of_mem_roots (hvalues w hw r hr)
    refine ⟨hset, tracks_stored hs.wellFormed hs.bindings hlive hset.leads rfl rfl rfl hi
      (fun _ _ _ => Or.inl not_false) fun t ht _ => ?_⟩
    rw [hvalue t ht]
  · have hon := hre.onward hs.wellFormed fun _ => by simp [ht]
    generalize ((recordWrite (s.layoutOf a) i v).run s).2 = s₁ at hre hon ⊢
    have hs₁ := hon.leads.wellFormed hs.wellFormed
    have htracks : s₁.Tracks fun k j => k = s.layoutOf a ∧ j = i := by
      refine hre.tracks hs.wellFormed (fun _ => by simp [ht])
        (Or.inr (by simp [hs.bindings.owner hlive ht])) hs.bindings (fun _ _ _ => Or.inl not_false) ?_
      intro b _ _ _ hnot
      exact absurd ⟨rfl, rfl⟩ hnot
    have hset := onward_setContent (s := s₁) (a := a) (i := i)
      fun w hw r hr => hon.live (hvalues w hw r hr)
    refine ⟨hon.trans hs.wellFormed hset, tracks_stored hs₁ htracks (hon.live ha) hset.leads
      rfl rfl rfl ?_ ?_ ?_⟩
    · rw [hre.layoutOf, hre.size]
      exact hi
    · intro k j _
      rw [hre.layoutOf]
      by_cases h : k = s.layoutOf a ∧ j = i
      · exact Or.inr h
      · exact Or.inl h
    · intro u hu _
      rw [hre.layoutOf, hre.token, if_pos ⟨rfl, rfl⟩] at hu
      rw [(hre.fresh u hu).2.1]

/-- Storing per context concerns slots that are not tracked only. -/
theorem advances_setContent_fanOut (hs : s.Sound) {a : ActivationId}
    (ha : Ref.activation a ∈ s.roots) {i : Nat} (hi : i < (s.layout (s.layoutOf a)).slots.size)
    (htoken : s.token (s.layoutOf a) i = none) {vs : ContextValues}
    (hvs : ∀ v, some v ∈ vs.toList → ∀ r ∈ v.refs, s.Live r) :
    s.Advances (s.setContent a i (.fanOut vs)) := by
  have hset := onward_setContent (s := s) (a := a) (i := i) (c := .fanOut vs)
    fun v hv => hvs v (SlotContent.mem_values_fanOut.1 hv)
  refine ⟨hset, tracks_stored hs.wellFormed hs.bindings (live_of_mem_roots ha) hset.leads
    rfl rfl rfl hi (fun _ _ _ => Or.inl not_false) fun t ht _ => ?_⟩
  simp [htoken] at ht

/-- A slot that holds a value per context is not tracked. -/
theorem Tracks.token_eq_none (h : s.Bindings) {a : ActivationId} (ha : s.Live (.activation a))
    {i : Nat} {vs : ContextValues} (hc : s.content a i = .fanOut vs) :
    s.token (s.layoutOf a) i = none := by
  by_contra hne
  obtain ⟨t, ht⟩ := Option.ne_none_iff_exists'.1 hne
  have hagree := h.agree a i t ha ht not_false
  rw [hc] at hagree
  cases hv : (s.stable t).value <;> simp [hv, SlotContent.ofOption] at hagree

theorem advances_store (hs : s.Sound) {a : ActivationId} (ha : Ref.activation a ∈ s.roots) {i : Nat}
    (hi : i < (s.layout (s.layoutOf a)).slots.size) {v : Value} (hv : ∀ r ∈ v.refs, r ∈ s.roots) :
    s.Advances ((store a i v).run s).2 := by
  have hlive := live_of_mem_roots ha
  rw [store_run]
  split
  · rename_i vs hc
    refine advances_setContent_fanOut hs ha hi (hs.bindings.token_eq_none hlive hc) ?_
    intro w hw r hr
    rcases ContextValues.mem_write hw with hw | hw
    · exact hlive.content hs.wellFormed (by rw [hc]; exact SlotContent.mem_values_fanOut.2 hw) hr
    · obtain rfl := Option.some.inj hw
      exact live_of_mem_roots (hv r hr)
  · exact advances_recordWrite_setContent hs ha hi (v := some v) hv

/-- Writing a slot keeps it in step. -/
theorem advances_write (hs : s.Sound) {a : ActivationId} (ha : Ref.activation a ∈ s.roots)
    (slot : Nat) {v : Value} (hv : ∀ r ∈ v.refs, r ∈ s.roots) (nonLocal : Bool) :
    s.Advances ((write a slot v nonLocal).run.run s).2 := by
  rw [write_run]
  cases hslot : s.slot? (s.layoutOf a) slot with
  | none => exact Advances.refl hs
  | some info =>
      have hnoted : s.Aside (s.noted a v) := by
        rw [noted]
        split
        · exact aside_invalidate s _
        · exact ⟨rfl, rfl, rfl, rfl, rfl, rfl, rfl, rfl, rfl⟩
      have hn := hnoted.advances hs
      have hi : slot < ((s.noted a v).layout ((s.noted a v).layoutOf a)).slots.size := by
        rw [Store.layoutOf, hnoted.activation, hnoted.layout]
        exact (Array.getElem?_eq_some_iff.1 hslot).1
      have hstore := hn.trans hs
        (advances_store (hn.sound hs) (hn.mem_roots ha) hi fun r hr => hn.mem_roots (hv r hr))
      dsimp only
      generalize (store a slot v).run (s.noted a v) = result at hstore ⊢
      rcases result with ⟨filled, s₁⟩
      dsimp only at hstore ⊢
      have hswept : s.Advances (if filled then s₁.invalidateNames (s.layoutOf a) [info.name] else s₁) := by
        split
        · exact hstore.trans hs
            (((Spares.refl s₁).invalidateNames _ _).advances (hstore.sound hs))
        · exact hstore
      generalize (if filled then s₁.invalidateNames (s.layoutOf a) [info.name] else s₁) = s₂
        at hswept ⊢
      refine hswept.trans hs ?_
      rw [noteWrite]
      split
      · exact (aside_invalidate s₂ _).advances (hswept.sound hs)
      · exact Advances.refl (hswept.sound hs)

theorem advances_bindName (hs : s.Sound) {a : ActivationId} (ha : Ref.activation a ∈ s.roots)
    (n : Name) {v : Value} (hv : ∀ r ∈ v.refs, r ∈ s.roots) (nonLocal : Bool) :
    s.Advances ((bindName a n v nonLocal).run.run s).2 := by
  rw [bindName_run]
  have hl := hs.wellFormed.layoutOf ha
  have hadd := advances_findOrAddSlot hs hl n
  exact hadd.trans hs (advances_write (hadd.sound hs) (hadd.mem_roots ha) _
    (fun r hr => hadd.mem_roots (hv r hr)) nonLocal)

/-- What is left in a slot that the current context empties was there before. -/
theorem onward_setContent_emptied (hs : s.WellFormed) {a : ActivationId}
    (ha : s.Live (.activation a)) (i : Nat) :
    s.Onward (s.setContent a i (s.emptiedContent a i)) := by
  refine onward_setContent fun v hv r hr => ?_
  rw [emptiedContent] at hv
  split at hv
  · rename_i vs hc
    refine ha.content hs (i := i) (v := v) ?_ hr
    rw [hc]
    exact SlotContent.mem_values_clean (some [s.contexts.current]) hv
  · simp [SlotContent.values] at hv

/-- Emptying a slot keeps it in step. -/
theorem advances_empty (hs : s.Sound) {a : ActivationId} (ha : Ref.activation a ∈ s.roots) {i : Nat}
    (hi : i < (s.layout (s.layoutOf a)).slots.size) : s.Advances ((empty a i).run s).2 := by
  have hlive := live_of_mem_roots ha
  rw [empty_run]
  dsimp only
  -- The content is emptied first, so the slot is out of step until the token follows.
  have hmid : ∀ s₁, s₁ = (if s.content a i = .empty then s
        else s.setContent a i (s.emptiedContent a i)) →
      s.Onward s₁ ∧ (s₁.Tracks fun k j => k = s.layoutOf a ∧ j = i)
        ∧ (∀ k j, s₁.token k j = s.token k j) ∧ (∀ b, s₁.layoutOf b = s.layoutOf b)
        ∧ ∀ t, s.token (s.layoutOf a) i = some t → s₁.content a i = .empty := by
    rintro s₁ rfl
    split
    · rename_i hc
      exact ⟨.refl s, hs.bindings.settle (fun _ _ _ _ _ hf => absurd hf not_false),
        fun _ _ => rfl, fun _ => rfl, fun _ _ => hc⟩
    · have hset := onward_setContent_emptied hs.wellFormed hlive i
      refine ⟨hset, tracks_stored hs.wellFormed hs.bindings hlive hset.leads rfl rfl rfl hi
        (fun _ _ _ => Or.inl not_false) (fun _ _ hnot => absurd ⟨rfl, rfl⟩ hnot),
        fun _ _ => rfl, fun b => layoutOf_setContent s a b i _, fun t ht => ?_⟩
      rw [content_setContent s a i i _ (hlive.allocated hs.wellFormed), if_pos ⟨rfl, rfl⟩,
        emptiedContent]
      split
      · rename_i vs hc
        simp [hs.bindings.token_eq_none hlive hc] at ht
      · rfl
  generalize (if s.content a i = .empty then s else s.setContent a i (s.emptiedContent a i)) = s₁
    at hmid ⊢
  obtain ⟨hon, htracks, htoken, hlayout, hempty⟩ := hmid s₁ rfl
  have hs₁ := hon.leads.wellFormed hs.wellFormed
  have ha₁ := hon.live ha
  rcases recordWrite_cases hs₁ (s.layoutOf a) i (v := none) (by simp) with
    ⟨hsame, -, hvalue⟩ | ⟨t, new, ht, -, hre, -⟩
  · rw [hsame]
    refine ⟨hon, htracks.settle fun b j t hb ht hp _ => ?_⟩
    obtain ⟨hl, rfl⟩ := hp
    have ht' : s₁.token (s₁.layoutOf a) j = some t := by rw [hlayout, ← hl]; exact ht
    obtain rfl := htracks.eq_of_token ha₁ hb ht' (by rw [hl, hlayout])
    rw [hvalue t (hl ▸ ht)]
    rw [hlayout, htoken] at ht'
    exact hempty t ht'
  · have hre' := hre.onward hs₁ fun _ => by simp [ht]
    refine ⟨hon.trans hs.wellFormed hre', hre.tracks hs₁ (fun _ => by simp [ht]) (Or.inl rfl) htracks
      (fun k j _ => ?_) fun b hb hl _ _ => ?_⟩
    · by_cases h : k = s.layoutOf a ∧ j = i
      · exact Or.inr h
      · exact Or.inl h
    · have ht' : s₁.token (s₁.layoutOf a) i = some t := by rw [hlayout]; exact ht
      obtain rfl := htracks.eq_of_token ha₁ hb ht' (by rw [hl, hlayout])
      exact hempty t ((htoken _ _).symm.trans ht)

theorem advances_remove (hs : s.Sound) {a : ActivationId} (ha : Ref.activation a ∈ s.roots)
    (n : Name) : s.Advances ((remove a n).run s).2 := by
  rw [remove_run]
  split
  · exact Advances.refl hs
  · rename_i slot _
    cases hslot : s.slot? (s.layoutOf a) slot with
    | none => exact Advances.refl hs
    | some info =>
        have hempty := advances_empty hs ha (Array.getElem?_eq_some_iff.1 hslot).1
        dsimp only
        generalize ((empty a slot).run s).2 = s₁ at hempty ⊢
        refine hempty.trans hs ?_
        have hs₁ := hempty.sound hs
        rw [noteWrite]
        split
        · exact (((Spares.refl s₁).aside (aside_invalidate s₁ _)).invalidateNames _ _).advances hs₁
        · exact ((Spares.refl s₁).invalidateNames _ _).advances hs₁

/-! ## Activations -/

/-- Tokens of slots of one layout have been replaced, and nothing else has changed. -/
structure Touches (s s' : Store) (l : LayoutId) : Prop where
  activations : s'.activations = s.activations
  lookups : s'.lookups = s.lookups
  caches : s'.caches = s.caches
  contexts : s'.contexts = s.contexts
  layout : ∀ k, (s'.layout k).bare = (s.layout k).bare
  size : ∀ k, (s'.layout k).slots.size = (s.layout k).slots.size
  slot : ∀ k j info, s.slot? k j = some info →
    ∃ info', s'.slot? k j = some info' ∧ info'.name = info.name
  token : ∀ k j, k ≠ l → s'.token k j = s.token k j
  fresh : ∀ j u, s.Allocated (.stable u) → s'.token l j = some u → s.token l j = some u
  grows : ∀ u, s.Allocated (.stable u) → s'.Allocated (.stable u)
  value : ∀ u, s.Allocated (.stable u) → (s'.stable u).value = (s.stable u).value
  kept : ∀ u, s.Allocated (.stable u) → (∀ j, s.token l j ≠ some u) →
    s'.stableValid u = s.stableValid u

theorem Touches.refl (s : Store) (l : LayoutId) : s.Touches s l :=
  ⟨rfl, rfl, rfl, rfl, fun _ => rfl, fun _ => rfl, fun _ _ info h => ⟨info, h, rfl⟩,
    fun _ _ _ => rfl, fun _ _ _ h => h, fun _ h => h, fun _ _ => rfl, fun _ _ _ => rfl⟩

theorem Touches.trans {l : LayoutId} (h : s.Touches s₁ l) (h' : s₁.Touches s₂ l) :
    s.Touches s₂ l where
  activations := h'.activations.trans h.activations
  lookups := h'.lookups.trans h.lookups
  caches := h'.caches.trans h.caches
  contexts := h'.contexts.trans h.contexts
  layout k := (h'.layout k).trans (h.layout k)
  size k := (h'.size k).trans (h.size k)
  slot k j info hslot := by
    obtain ⟨info₁, hslot₁, hname₁⟩ := h.slot k j info hslot
    obtain ⟨info₂, hslot₂, hname₂⟩ := h'.slot k j info₁ hslot₁
    exact ⟨info₂, hslot₂, hname₂.trans hname₁⟩
  token k j hk := (h'.token k j hk).trans (h.token k j hk)
  fresh j u hu ht := h.fresh j u hu (h'.fresh j u (h.grows u hu) ht)
  grows u hu := h'.grows u (h.grows u hu)
  value u hu := (h'.value u (h.grows u hu)).trans (h.value u hu)
  kept u hu hnot := (h'.kept u (h.grows u hu) fun j ht => hnot j (h.fresh j u hu ht)).trans
    (h.kept u hu hnot)

theorem Retracks.touches {l : LayoutId} {i : Nat} {new : Option StableId} {v : Option Value}
    (h : s.Retracks s₁ l i new v) : s.Touches s₁ l where
  activations := h.activations
  lookups := h.lookups
  caches := h.caches
  contexts := h.contexts
  layout := h.layout
  size := h.size
  slot := h.slot
  token k j hk := by rw [h.token, if_neg fun hc => hk hc.1]
  fresh j u hu ht := by
    rw [h.token] at ht
    split at ht
    · exact absurd hu (h.fresh u ht).1
    · exact ht
  grows u := h.leads.grows _
  value := h.value
  kept u hu hnot := by simp [h.valid u hu, hnot i]

/-- Emptying the slots of a layout one by one, where nothing is stored any more. -/
theorem onward_emptied {l : LayoutId} {i n : Nat} (hs : s.WellFormed)
    (hb : s.Tracks fun k j => k = l ∧ i ≤ j)
    (hempty : ∀ a, s.Live (.activation a) → s.layoutOf a = l → ∀ j, s.content a j = .empty)
    (hnone : ∀ j < i, ∀ t, s.token l j = some t → (s.stable t).value = none) :
    s.Onward (s.emptied l i n) ∧ ((s.emptied l i n).Tracks fun k j => k = l ∧ i + n ≤ j)
      ∧ s.Touches (s.emptied l i n) l ∧ ∀ j < i + n, ∀ t, (s.emptied l i n).token l j = some t →
        ((s.emptied l i n).stable t).value = none := by
  induction n generalizing s i with
  | zero => exact ⟨.refl s, hb, .refl s l, hnone⟩
  | succ n ih =>
      rw [emptied_succ, Nat.add_comm n 1, ← Nat.add_assoc]
      have hstep : s.Onward ((recordWrite l i none).run s).2
          ∧ ((recordWrite l i none).run s).2.Tracks (fun k j => k = l ∧ i + 1 ≤ j)
          ∧ s.Touches ((recordWrite l i none).run s).2 l
          ∧ (∀ a, ((recordWrite l i none).run s).2.Live (.activation a) →
            ((recordWrite l i none).run s).2.layoutOf a = l →
            ∀ j, ((recordWrite l i none).run s).2.content a j = .empty)
          ∧ ∀ j < i + 1, ∀ t, ((recordWrite l i none).run s).2.token l j = some t →
            (((recordWrite l i none).run s).2.stable t).value = none := by
        have hpending : ∀ {k j}, k = l ∧ i ≤ j → ¬ (k = l ∧ i + 1 ≤ j) → k = l ∧ j = i := by
          intro k j h hnot
          have hlt : ¬ i + 1 ≤ j := fun hle => hnot ⟨h.1, hle⟩
          have hle := h.2
          exact ⟨h.1, by omega⟩
        rcases recordWrite_cases hs l i (v := none) (by simp) with
          ⟨hsame, -, hvalue⟩ | ⟨t, new, ht, -, hre, -⟩
        · rw [hsame]
          refine ⟨.refl s, hb.settle fun a j t ha ht hp hnot => ?_, .refl s l, hempty,
            fun j hj t ht => ?_⟩
          · obtain ⟨hl, rfl⟩ := hpending hp hnot
            rw [hvalue t (hl ▸ ht)]
            exact hempty a ha hl j
          · rcases Nat.lt_succ_iff_lt_or_eq.1 hj with hj | rfl
            · exact hnone j hj t ht
            · exact hvalue t ht
        · refine ⟨hre.onward hs fun _ => by simp [ht],
            hre.tracks hs (fun _ => by simp [ht]) (Or.inl rfl) hb (fun k j hnot => ?_)
              (fun a ha hl _ _ => hempty a ha hl i), hre.touches, fun a ha hl j => ?_,
            fun j hj u hu => ?_⟩
          · by_cases h : k = l ∧ i ≤ j
            · exact Or.inr (hpending h hnot)
            · exact Or.inl h
          · rw [hre.content]
            exact hempty a (hre.live hs ha) (by rwa [hre.layoutOf] at hl) j
          · rw [hre.token] at hu
            split at hu
            · exact (hre.fresh u hu).2.1
            · rename_i hne
              rw [hre.value u (hs.token hu)]
              have hj' : j ≠ i := fun h => hne ⟨rfl, h⟩
              exact hnone j (by omega) u hu
      obtain ⟨hon, htracks, htouch, hempty', hnone'⟩ := hstep
      obtain ⟨hon', htracks', htouch', hdone⟩ :=
        ih (hon.leads.wellFormed hs) htracks hempty' hnone'
      exact ⟨hon.trans hs hon', htracks', htouch.trans htouch', hdone⟩

section Entering

variable {l : LayoutId} {enclosing : Option ActivationId} {depth : Nat}

theorem activation_joined (b : ActivationId) : (s.joined l enclosing depth).activation b
    = if b.index = s.activations.size then s.entrant l enclosing depth else s.activation b :=
  s.takeSerial.activation_addActivation (s.entrant l enclosing depth) b

/-- After an activation has been made, those that were there before are the others. -/
theorem allocated_joined {b : ActivationId}
    (hb : (s.joined l enclosing depth).Allocated (.activation b))
    (hne : b.index ≠ s.activations.size) : s.Allocated (.activation b) := by
  simp only [Allocated, joined, takeSerial, addActivation, Array.size_push] at hb ⊢
  omega

theorem onward_joined (depth : Nat) (hl : s.Live (.layout l))
    (he : ∀ b, enclosing = some b → s.Live (.activation b)) :
    s.Onward (s.joined l enclosing depth) := by
  have haside : s.Aside s.takeSerial := ⟨rfl, rfl, rfl, rfl, rfl, rfl, rfl, rfl, rfl⟩
  refine ⟨((Leads.refl s).aside haside).addActivation fun r hr => Or.inl ?_, rfl, .of_eq rfl rfl⟩
  simp only [Activation.refs, entrant, List.mem_append, List.mem_cons, Option.mem_toList] at hr
  rcases hr with (rfl | hr) | hr
  · exact hl
  · obtain ⟨b, hb, rfl⟩ := Option.map_eq_some_iff.1 hr
    exact he b hb
  · simp at hr

/-- Entering a layout that admits many activations keeps everything in step. -/
theorem bindings_joined (hs : s.Sound) (hon : s.Onward (s.joined l enclosing depth))
    (hk : (s.layout l).kind.isSingleton = false) : (s.joined l enclosing depth).Bindings := by
  have hb := hs.bindings
  have hlive : ∀ b, (s.joined l enclosing depth).Live (.activation b) →
      b.index ≠ s.activations.size → s.Live (.activation b) := fun b hb hne =>
    hon.leads.live_before hs.wellFormed (allocated_joined · hne) hb
  refine hb.of_activations rfl rfl (fun b hb' => ?fits) (fun b hb' hkind => ?unique)
    fun b i t hb' ht _ => ?agree
  case fits =>
    rw [layoutOf, activation_joined]
    split
    · simp [entrant]
    · rename_i hne
      exact hb.fits b (allocated_joined hb' hne)
  case unique =>
    rw [layoutOf, activation_joined] at hkind ⊢
    split at hkind
    · rw [entrant, hk] at hkind
      exact absurd hkind Bool.false_ne_true
    · rename_i hne
      rw [if_neg hne]
      exact hb.unique b (hlive b hb' hne) hkind
  case agree =>
    rw [layoutOf, activation_joined] at ht
    rw [content, activation_joined]
    split at ht
    · have := hb.kind l i t ht
      rw [hk] at this
      exact absurd this Bool.false_ne_true
    · rename_i hne
      rw [if_neg hne]
      exact hb.agree b i t (hlive b hb' hne) ht not_false

theorem layout_claimed (enclosing : Option ActivationId) (depth : Nat) (hl : s.Allocated (.layout l)) (k : LayoutId) :
    (s.claimed l enclosing depth).layout k
      = if k = l then (s.layout l).claim ⟨s.activations.size⟩ else s.layout k := by
  have hl' : (s.joined l enclosing depth).Allocated (.layout l) := hl
  rw [claimed, layout_modifyLayout]
  by_cases hk : k = l
  · rw [if_pos ⟨hk, hl'⟩, if_pos hk]
    rfl
  · rw [if_neg fun h => hk h.1, if_neg hk]
    rfl

theorem kind_claimed (k : LayoutId) :
    ((s.claimed l enclosing depth).layout k).kind = (s.layout k).kind :=
  layout_modifyLayout_congr _ Layout.kind l k _ rfl

theorem slots_claimed (k : LayoutId) :
    ((s.claimed l enclosing depth).layout k).slots = (s.layout k).slots :=
  layout_modifyLayout_congr _ Layout.slots l k _ rfl

theorem token_claimed (k : LayoutId) (j : Nat) :
    (s.claimed l enclosing depth).token k j = s.token k j := by
  simp only [token, slot?, slots_claimed]

theorem onward_claimed (depth : Nat) (hl : s.Live (.layout l))
    (he : ∀ b, enclosing = some b → s.Live (.activation b)) :
    s.Onward (s.claimed l enclosing depth) := by
  refine ⟨(onward_joined depth hl he).leads.modifyLayout (fun r hr => Or.inl hr) fun r hr => ?_, rfl, ?_⟩
  · simp only [Layout.weakRefs, Layout.claim, Option.toList_some, List.map_cons, List.map_nil,
      List.mem_append, List.mem_singleton] at hr ⊢
    rcases hr with hr | rfl
    · exact Or.inl (Or.inl hr)
    · exact Or.inr (by simp [Allocated, joined, addActivation, takeSerial])
  · refine ⟨fun k j info h => ⟨info, ?_, rfl, id⟩,
      fun k j t h => Or.inl ((token_claimed k j).trans h), fun _ _ h => h, fun _ _ => rfl⟩
    rw [slot?, slots_claimed]
    exact h

theorem activation_claimed (b : ActivationId) : (s.claimed l enclosing depth).activation b
    = if b.index = s.activations.size then s.entrant l enclosing depth else s.activation b :=
  activation_joined b

theorem live_of_claimed (hs : s.Sound) (hon : s.Onward (s.claimed l enclosing depth)) {b : ActivationId}
    (hb : (s.claimed l enclosing depth).Live (.activation b)) (hne : b.index ≠ s.activations.size) :
    s.Live (.activation b) :=
  hon.leads.live_before hs.wellFormed (allocated_joined · hne) hb

/-- Where no activation of a layout is alive any more, the one that claims it has nothing in its slots. -/
theorem content_claimed (hs : s.Sound) (hon : s.Onward (s.claimed l enclosing depth))
    (hnone : ∀ b, s.Live (.activation b) → s.layoutOf b ≠ l) {b : ActivationId}
    (hb : (s.claimed l enclosing depth).Live (.activation b))
    (hbl : (s.claimed l enclosing depth).layoutOf b = l) (j : Nat) :
    (s.claimed l enclosing depth).content b j = .empty := by
  rw [layoutOf, activation_claimed] at hbl
  rw [content, activation_claimed]
  split at hbl
  · rename_i hnew
    rw [if_pos hnew]
    rfl
  · rename_i hne
    exact absurd hbl (hnone b (live_of_claimed hs hon hb hne))

/-- Claiming a layout whose activation is not alive any more leaves at most the slots of that layout
    out of step, and none of them if it was never claimed before. -/
theorem tracks_claimed (hs : s.Sound) (hon : s.Onward (s.claimed l enclosing depth))
    (hl : s.Allocated (.layout l)) (hnone : ∀ b, s.Live (.activation b) → s.layoutOf b ≠ l) :
    (s.claimed l enclosing depth).Tracks (fun k _ => k = l ∧ (s.layout l).singleton ≠ none) where
  kind k j t ht := by
    rw [kind_claimed]
    exact hs.bindings.kind k j t ((token_claimed k j).symm.trans ht)
  valid k j t ht := hs.bindings.valid k j t ((token_claimed k j).symm.trans ht)
  unshared k j k' j' t ht ht' :=
    hs.bindings.unshared k j k' j' t ((token_claimed k j).symm.trans ht) ((token_claimed k' j').symm.trans ht')
  owned t ht := by
    obtain ⟨k, j, hk⟩ := hs.bindings.owned t ht
    exact ⟨k, j, (token_claimed k j).trans hk⟩
  unclaimed k j t hn ht := by
    rw [layout_claimed _ _ hl] at hn
    split at hn
    · simp [Layout.claim] at hn
    · exact hs.bindings.unclaimed k j t hn ((token_claimed k j).symm.trans ht)
  fits b hb := by
    rw [slots_claimed, layoutOf, activation_claimed]
    split
    · simp [entrant]
    · rename_i hne
      exact hs.bindings.fits b (allocated_joined hb hne)
  unique b hb hk := by
    rw [kind_claimed, layoutOf, activation_claimed] at hk
    rw [layoutOf, activation_claimed, layout_claimed _ _ hl]
    split at hk
    · rename_i hnew
      rw [if_pos hnew, show (s.entrant l enclosing depth).layout = l from rfl, if_pos rfl, ← hnew]
      rfl
    · rename_i hne
      have hold := live_of_claimed hs hon hb hne
      rw [if_neg hne, ← layoutOf, if_neg (hnone b hold)]
      exact hs.bindings.unique b hold hk
  agree b j t hb ht hnot := by
    rw [token_claimed, layoutOf, activation_claimed] at ht
    rw [layoutOf, activation_claimed] at hnot
    rw [content, activation_claimed]
    split at ht
    · -- A layout that was never claimed has tracked no value, and the new activation holds none.
      rename_i hnew
      rw [if_pos hnew] at hnot ⊢
      have hn : (s.layout l).singleton = none := by
        by_contra hn
        exact hnot ⟨rfl, hn⟩
      rw [show (s.claimed l enclosing depth).stable t = s.stable t from rfl,
        hs.bindings.unclaimed l j t hn ht]
      rfl
    · rename_i hne
      rw [if_neg hne]
      exact hs.bindings.agree b j t (live_of_claimed hs hon hb hne) ht not_false

/-- Claiming a layout anew leaves its slots empty and in step. -/
theorem advances_reclaimed (depth : Nat) (hs : s.Sound) (hl : s.Live (.layout l))
    (he : ∀ b, enclosing = some b → s.Live (.activation b))
    (hnone : ∀ b, s.Live (.activation b) → s.layoutOf b ≠ l) :
    s.Advances (s.reclaimed l enclosing depth)
      ∧ (s.claimed l enclosing depth).Touches (s.reclaimed l enclosing depth) l
      ∧ ∀ j t, (s.reclaimed l enclosing depth).token l j = some t →
        ((s.reclaimed l enclosing depth).stable t).value = none := by
  have hclaim := onward_claimed depth hl he
  have htracks := tracks_claimed hs hclaim (hl.allocated hs.wellFormed) hnone
  obtain ⟨hon, hdone, htouch, hvalue⟩ := onward_emptied (l := l) (i := 0)
    (n := (s.layout l).slots.size) (hclaim.leads.wellFormed hs.wellFormed)
    (htracks.settle fun _ _ _ _ _ hp hnot => absurd ⟨hp.1, Nat.zero_le _⟩ hnot)
    (fun _ => content_claimed hs hclaim hnone) (by simp)
  have hlt : ∀ {j t}, (s.reclaimed l enclosing depth).token l j = some t →
      j < 0 + (s.layout l).slots.size := by
    intro j t ht
    have hsize : ((s.reclaimed l enclosing depth).layout l).slots.size
        = (s.layout l).slots.size := (htouch.size l).trans (congrArg Array.size (slots_claimed l))
    have hlt := token_lt ht
    omega
  refine ⟨⟨hclaim.trans hs.wellFormed hon, hdone.settle fun b j t hb ht hp _ => ?_⟩, htouch,
    fun j t ht => hvalue j (hlt ht) t ht⟩
  rw [hp.1] at ht
  exact absurd hp.2 (Nat.not_le.2 (hlt ht))

end Entering

/-- An activation that nothing refers to yet, and that may be held. -/
structure Ready (s : Store) (a : ActivationId) : Prop where
  allocated : s.Allocated (.activation a)
  refs : ∀ r ∈ s.refs (.activation a), s.Live r
  unique : (s.layout (s.layoutOf a)).kind.isSingleton = true →
    (s.layout (s.layoutOf a)).singleton = some a
  agree : ∀ i t, s.token (s.layoutOf a) i = some t → s.content a i = .ofOption (s.stable t).value

theorem Ready.of_joined {l : LayoutId} {enclosing : Option ActivationId} (depth : Nat)
    (h : s₁.activations = (s.joined l enclosing depth).activations) (hl : s₁.Live (.layout l))
    (he : ∀ b, enclosing = some b → s₁.Live (.activation b))
    (hunique : (s₁.layout l).kind.isSingleton = true →
      (s₁.layout l).singleton = some ⟨s.activations.size⟩)
    (hnone : ∀ i t, s₁.token l i = some t → (s₁.stable t).value = none) :
    s₁.Ready ⟨s.activations.size⟩ := by
  have ha : s₁.Allocated (.activation ⟨s.activations.size⟩) := by
    simp [Allocated, h, joined, addActivation, takeSerial]
  have hact : s₁.activation ⟨s.activations.size⟩ = s.entrant l enclosing depth := by
    simp only [activation, h]
    exact (activation_joined _).trans (if_pos rfl)
  refine ⟨ha, fun r hr => ?_, ?_, fun i t ht => ?_⟩
  · rw [refs_activation ha, hact] at hr
    simp only [Activation.refs, entrant, List.mem_append, List.mem_cons, Option.mem_toList] at hr
    rcases hr with (rfl | hr) | hr
    · exact hl
    · obtain ⟨b, hb, rfl⟩ := Option.map_eq_some_iff.1 hr
      exact he b hb
    · simp at hr
  · rw [layoutOf, hact]
    exact hunique
  · rw [layoutOf, hact] at ht
    rw [content, hact, hnone i t ht]
    rfl

/-- A layout that may be claimed has no activation alive. -/
theorem Sound.layoutOf_ne (hs : s.Sound) {l : LayoutId} (hk : (s.layout l).kind.isSingleton = true)
    (hfree : ¬ (s.singletonActivation l).isSome = true) {b : ActivationId}
    (hb : s.Live (.activation b)) : s.layoutOf b ≠ l := by
  rintro rfl
  have hown := hs.bindings.unique b hb hk
  have hb := (isLive_iff hs.wellFormed (hb.allocated hs.wellFormed)).2 hb
  refine hfree ?_
  simp [singletonActivation, hown, upgradeActivation, hb]

/-- Entering a layout keeps everything in step, and what it makes may be held. -/
theorem advances_enter (hs : s.Sound) {l : LayoutId} (hl : Ref.layout l ∈ s.roots)
    {enclosing : Option ActivationId} (he : ∀ b, enclosing = some b → Ref.activation b ∈ s.roots)
    (depth : Nat) : s.Advances ((enter l enclosing depth).run.run s).2
      ∧ ∀ a, ((enter l enclosing depth).run.run s).1 = .ok a →
        ((enter l enclosing depth).run.run s).2.Ready a := by
  have hlive := live_of_mem_roots hl
  have helive := fun b hb => live_of_mem_roots (he b hb)
  rw [enter_run]
  by_cases hk : (s.layout l).kind.isSingleton = true
  · rw [if_pos hk]
    split
    · have haside : s.Aside s.takeSerial := ⟨rfl, rfl, rfl, rfl, rfl, rfl, rfl, rfl, rfl⟩
      exact ⟨haside.advances hs, by simp⟩
    · rename_i hfree
      have hnone : ∀ b, s.Live (.activation b) → s.layoutOf b ≠ l := fun b =>
        hs.layoutOf_ne hk hfree
      have hsingleton : ((s.claimed l enclosing depth).layout l).singleton
          = some ⟨s.activations.size⟩ := by
        rw [layout_claimed enclosing depth (hlive.allocated hs.wellFormed), if_pos rfl]
        rfl
      by_cases hfirst : (s.layout l).singleton.isSome = true
      · obtain ⟨hreclaim, htouch, hvalue⟩ :=
          advances_reclaimed depth hs hlive helive hnone
        have hspares := (Spares.refl (s.reclaimed l enclosing depth)).invalidateAll l
        have hswept := (s.reclaimed l enclosing depth).swept_invalidateAll l
        have hend := hreclaim.trans hs (hspares.advances (hreclaim.sound hs))
        simp only [if_pos hfirst]
        refine ⟨hend, ?_⟩
        rintro a ⟨rfl⟩
        refine .of_joined depth ?_ (hend.live hl) (fun b hb => hend.live (he b hb)) (fun _ => ?_)
          fun i t ht => ?_
        · rw [hswept.eq]
          exact htouch.activations
        · rw [(hswept.layout l).singleton]
          exact (congrArg Layout.singleton (htouch.layout l)).trans hsingleton
        · rw [hspares.stable]
          exact hvalue i t ((hspares.token l i).symm.trans ht)
      · have hclaim := onward_claimed depth hlive helive
        have hend : s.Advances (s.claimed l enclosing depth) :=
          ⟨hclaim, (tracks_claimed hs hclaim (hlive.allocated hs.wellFormed) hnone).settle
            fun _ _ _ _ _ hp _ => absurd (Option.isSome_iff_ne_none.2 hp.2) hfirst⟩
        simp only [if_neg hfirst]
        refine ⟨hend, ?_⟩
        rintro a ⟨rfl⟩
        refine .of_joined depth rfl (hend.live hl) (fun b hb => hend.live (he b hb)) (fun _ => hsingleton)
          fun i t ht => ?_
        exact hs.bindings.unclaimed l i t (by simpa using hfirst) ((token_claimed l i).symm.trans ht)
  · rw [if_neg hk]
    have hk : (s.layout l).kind.isSingleton = false := by simpa using hk
    have hon := onward_joined depth hlive helive
    have hend : s.Advances (s.joined l enclosing depth) := ⟨hon, bindings_joined hs hon hk⟩
    refine ⟨hend, ?_⟩
    rintro a ⟨rfl⟩
    have hnot : ¬ ((s.joined l enclosing depth).layout l).kind.isSingleton = true := fun h =>
      absurd (hk ▸ h) Bool.false_ne_true
    exact .of_joined depth rfl (hend.live hl) (fun b hb => hend.live (he b hb)) (fun h => absurd h hnot)
      fun i t ht => absurd (hend.bindings.kind l i t ht) hnot

theorem Advances.mem_roots_activation (h : s.Advances s₁) {e : Option ActivationId}
    (he : ∀ b, e = some b → Ref.activation b ∈ s.roots) :
    ∀ b, e = some b → Ref.activation b ∈ s₁.roots :=
  fun b hb => h.mem_roots (he b hb)

/-- Making an activation keeps everything in step, and it may be held. -/
theorem advances_newScope (hs : s.Sound) {l : LayoutId} (hl : Ref.layout l ∈ s.roots)
    {enclosing : Option ActivationId} (he : ∀ b, enclosing = some b → Ref.activation b ∈ s.roots)
    (depth : Nat) : s.Advances ((newScope l enclosing depth).run.run s).2
      ∧ ∀ a, ((newScope l enclosing depth).run.run s).1 = .ok a →
        ((newScope l enclosing depth).run.run s).2.Ready a := by
  have hparent : ∀ p, enclosing.map s.layoutOf = some p → s.Allocated (.layout p) := fun _ =>
    hs.wellFormed.layoutOf_map he
  rw [newScope_run]
  split
  · exact advances_enter hs hl he depth
  · have hlink := (spares_initializeEnclosing (hs.wellFormed.roots _ hl) hparent).advances hs
    generalize (initializeEnclosing l (enclosing.map s.layoutOf)).run.run s = result at hlink ⊢
    rcases result with ⟨e | _, s₁⟩
    · exact ⟨hlink, by simp⟩
    · have henter := advances_enter (hlink.sound hs) (hlink.mem_roots hl)
        (hlink.mem_roots_activation he) depth
      exact ⟨hlink.trans hs henter.1, henter.2⟩

/-! ## Looking up -/

/-- A walk that ends, by the steps it may take: what it finds, and the activations that it passes. -/
inductive Walks (s : Store) (n : Name) : Nat → ActivationId → Finding → List ActivationId → Prop where
  | stop {fuel : Nat} {a : ActivationId} {f : Finding} (hstop : s.stopAt (s.layoutOf a) n = .found f) :
      Walks s n (fuel + 1) a f [a]
  | root {fuel : Nat} {a : ActivationId} (hstop : s.stopAt (s.layoutOf a) n = .passOn)
      (halong : (s.layout (s.layoutOf a)).enclosing = none) (hnext : (s.activation a).enclosing = none) :
      Walks s n (fuel + 1) a .unbound [a]
  | up {fuel : Nat} {a next : ActivationId} {f : Finding} {path : List ActivationId}
      (hstop : s.stopAt (s.layoutOf a) n = .passOn)
      (halong : (s.layout (s.layoutOf a)).enclosing = some (s.layoutOf next))
      (hnext : (s.activation a).enclosing = some next) (hrest : Walks s n fuel next f path) :
      Walks s n (fuel + 1) a f (a :: path)

theorem walks_of_walk {n : Name} {fuel : Nat} {a : ActivationId} {f : Finding} {path : List ActivationId}
    (hw : s.walk n fuel a = some (f, path)) : s.Walks n fuel a f path := by
  induction fuel generalizing a path with
  | zero => simp [walk] at hw
  | succ fuel ih =>
      rw [walk] at hw
      dsimp only at hw
      split at hw
      · rename_i hstop
        obtain ⟨rfl, rfl⟩ := Prod.mk.inj (Option.some.inj hw)
        exact .stop hstop
      · simp at hw
      · rename_i hstop
        split at hw
        · rename_i halong
          rw [isEnclosedBy, decide_eq_true_eq] at halong
          split at hw
          · rename_i hnext
            obtain ⟨rfl, rfl⟩ := Prod.mk.inj (Option.some.inj hw)
            exact .root hstop (by rw [halong, hnext, Option.map_none]) hnext
          · rename_i next hnext
            obtain ⟨⟨g, rest⟩, hrest, heq⟩ := Option.map_eq_some_iff.1 hw
            obtain ⟨rfl, rfl⟩ := Prod.mk.inj heq
            exact .up hstop (by rw [halong, hnext, Option.map_some]) hnext (ih hrest)
        · simp at hw

theorem Walks.walk_eq {n : Name} {fuel : Nat} {a : ActivationId} {f : Finding} {path : List ActivationId}
    (hw : s.Walks n fuel a f path) : s.walk n fuel a = some (f, path) := by
  induction hw with
  | stop hstop => rw [walk]; simp only [hstop]
  | root hstop halong hnext => rw [walk]; simp [hstop, hnext, isEnclosedBy, halong]
  | up hstop halong hnext _ ih => rw [walk]; simp [hstop, hnext, isEnclosedBy, halong, ih]

/-- A walk stops at a token of the layout, or at the slot of its activation. -/
theorem stopAt_found {l : LayoutId} {n : Name} {f : Finding} (h : s.stopAt l n = .found f) :
    (∃ slot t, (s.slot? l slot).bind (·.stable) = some t ∧ f = .stable t)
      ∨ ∃ slot a, s.singletonActivation l = some a ∧ f = .boundAt a slot := by
  unfold stopAt at h
  split at h
  · simp at h
  · rename_i slot _
    split at h
    · rename_i t ht
      split at h
      · exact .inl ⟨slot, t, ht, (Stop.found.inj h).symm⟩
      · simp at h
    · split at h
      · rename_i a ha
        exact .inr ⟨slot, a, ha, (Stop.found.inj h).symm⟩
      · simp at h

/-- A walk from a live activation finds a token that is alive. -/
theorem walk_live (hs : s.WellFormed) {n : Name} {fuel : Nat} {a : ActivationId} {t : StableId}
    {path : List ActivationId} (ha : s.Live (.activation a))
    (hw : s.walk n fuel a = some (.stable t, path)) : s.Live (.stable t) := by
  generalize hf : Finding.stable t = f at hw
  replace hw := walks_of_walk hw
  induction hw with
  | stop hstop =>
      refine (ha.layoutOf hs).of_mem_refs ?_
      rcases stopAt_found hstop with ⟨slot, u, hu, rfl⟩ | ⟨slot, b, -, rfl⟩
      · obtain rfl := Finding.stable.inj hf
        exact mem_refs_of_token hu
      · simp at hf
  | root => simp at hf
  | up _ _ hnext _ ih => exact ih (ha.enclosing hs hnext) hf

theorem Spares.recordWalk (h : s.Spares s₁) (n : Name) (path : List ActivationId) :
    s.Spares (s₁.recordWalk n path) := by
  induction path generalizing s₁ with
  | nil => exact h
  | cons b path ih =>
      refine ih (h.modifyLayout ?_ ?_ ?_ (fun r hr => ?_) (fun r hr => ?_))
      · rw [Layout.record]
        split <;> rfl
      · rw [Layout.record]
        split <;> rfl
      · rw [Layout.record]
        split <;> rfl
      · rw [Layout.record] at hr
        split at hr <;> exact Or.inl hr
      · rw [Layout.record] at hr
        split at hr <;> exact Or.inl hr

theorem Spares.memoize (h : s.Spares s₁) (l : LayoutId) (n : Name) {r : LookupResult}
    (hr : ∀ q ∈ r.refs, s.Live q) : s.Spares (s₁.memoize l n r) := by
  rw [Store.memoize]
  refine Spares.aside (h.modifyLayout ?_ ?_ ?_ (fun q hq => ?_) (fun q hq => ?_))
    (aside_invalidateEach _ _)
  · rw [Layout.memoize, Layout.record]
    split <;> rfl
  · rw [Layout.memoize, Layout.record]
    split <;> rfl
  · rw [Layout.memoize, Layout.record]
    split <;> rfl
  · have hslots : ((s₁.layout l).record n).slots = (s₁.layout l).slots := by
      rw [Layout.record]
      split <;> rfl
    simp only [Layout.refs, hslots, Layout.memoize, List.flatMap_append, List.mem_append,
      List.mem_flatMap, List.flatMap_singleton] at hq ⊢
    rcases hq with hq | ⟨m, hm, hq⟩ | hq
    · exact Or.inl (Or.inl hq)
    · exact Or.inl (Or.inr ⟨m, List.mem_of_mem_filter hm, hq⟩)
    · exact Or.inr (Or.inl (hr q hq))
  · rw [Layout.memoize, Layout.record] at hq
    split at hq <;> exact Or.inl hq

theorem Finding.refs_toResult {f : Finding} {g : LookupId} {q : Ref} (hq : q ∈ (f.toResult g).refs) :
    ∃ t, f = .stable t ∧ q = .stable t := by
  cases f with
  | stable t => exact ⟨t, rfl, by simpa [Finding.toResult, LookupResult.refs] using hq⟩
  | boundAt | unbound => simp [Finding.toResult, LookupResult.refs] at hq

/-- A result that a layout remembers is kept alive by it. -/
theorem mem_refs_of_memo {l : LayoutId} (hl : s.Allocated (.layout l)) {n : Name}
    {r : LookupResult} (hm : (s.layout l).memo? n = some r) {q : Ref} (hq : q ∈ r.refs) :
    q ∈ s.refs (.layout l) := by
  have hmem : (n, r) ∈ (s.layout l).memos := by
    rw [Layout.memo?, List.lookup_eq_some_iff] at hm
    obtain ⟨before, after, heq, -⟩ := hm
    rw [heq]
    exact List.mem_append_right _ List.mem_cons_self
  rw [refs_layout hl, Layout.refs, List.mem_append, List.mem_flatMap]
  exact Or.inr ⟨(n, r), hmem, hq⟩

/-- Resolving a name spares the bindings, and its result is kept alive. -/
theorem spares_resolve (hs : s.WellFormed) {a : ActivationId} (ha : s.Live (.activation a))
    (n : Name) : s.Spares ((resolve a n).run s).2
      ∧ ∀ r, ((resolve a n).run s).1 = some r → ∀ q ∈ r.refs, s.Live q := by
  have hl := ha.layoutOf hs
  have hanew : s.Spares ((resolveAnew a n).run s).2
      ∧ ∀ r, ((resolveAnew a n).run s).1 = some r → ∀ q ∈ r.refs, s.Live q := by
    rw [resolveAnew_run]
    split
    · exact ⟨Spares.refl s, by simp⟩
    · rename_i f path hw
      have hlive : ∀ q ∈ (f.toResult ⟨s.lookups.size⟩).refs, s.Live q := by
        intro q hq
        obtain ⟨t, rfl, rfl⟩ := Finding.refs_toResult hq
        exact walk_live hs ha hw
      refine ⟨(((Spares.refl s).aside (aside_addLookup s _)).recordWalk n path).memoize _ n hlive, ?_⟩
      rintro r ⟨rfl⟩
      exact hlive
  rw [resolve_run]
  split
  · rename_i r hm
    split
    · refine ⟨Spares.refl s, ?_⟩
      rintro r' ⟨rfl⟩ q hq
      exact hl.of_mem_refs (mem_refs_of_memo (hl.allocated hs) hm hq)
    · exact hanew
  · exact hanew

theorem spares_cachedRead (hs : s.WellFormed) {a : ActivationId} (ha : s.Live (.activation a))
    (c : CacheId) : s.Spares ((cachedRead c a).run s).2 := by
  rw [cachedRead_run]
  split
  · exact Spares.refl s
  · exact Spares.refl s
  · obtain ⟨hresolve, hlive⟩ := spares_resolve hs ha (s.cache c).name
    generalize (resolve a (s.cache c).name).run s = result at hresolve hlive ⊢
    rcases result with ⟨_ | r, s₁⟩
    · exact hresolve
    · refine hresolve.modifyCache fun q hq => Or.inl (hlive r rfl q ?_)
      simpa [LookupCache.refs] using hq

end Store

end ScopeCall
