import ScopeCall.Proofs.Settling

/-!
# `ScopeCall.Proofs.Confining` — what an assignment leaves alone

A name is assigned in one slot of one layout, through one activation. Other slots keep their tokens and what these
describe, and their guards are not touched, since no two slots of a layout share one. Other activations keep what they
hold, in every context, whatever layout they are of.

## Contents
- **Confinement.** `Store.Confines`: one slot, and one content.
- **Guards.** `Furnished.disjoint`: slots of a layout have guards of their own.
- **Changes.** Guards, contents, tokens, slots and sweeps, one at a time.
- **Operations.** Bindings, writes, writes for contexts, and removals.
-/

namespace ScopeCall

namespace Store

variable {s s₁ s₂ : Store} {l k : LayoutId} {a b : ActivationId} {i j : Nat} {info : SlotInfo} {n : Name} {v : Value}

/-! ## Confinement -/

/-- Of slots and contents, only the slot `i` of `l` has changed, and what `a` holds there. -/
structure Confines (l : LayoutId) (a : ActivationId) (i : Nat) (s s' : Store) : Prop where
  layoutOf : ∀ b, s'.layoutOf b = s.layoutOf b
  contexts : s'.contexts = s.contexts
  content : ∀ b j, (b = a → j ≠ i) → s'.content b j = s.content b j
  /-- A slot keeps its token, and the token what it describes. -/
  slots : ∀ k j info, (k = l → j ≠ i) → s.slot? k j = some info →
    s'.slot? k j = some info ∧ ∀ t, info.stable = some t → s'.stable t = s.stable t
  guards : ∀ j info, j ≠ i → s.slot? l j = some info → ∀ g ∈ info.guards, s'.guardValid g = s.guardValid g

namespace Confines

theorem refl (l : LayoutId) (a : ActivationId) (i : Nat) (s : Store) : Confines l a i s s :=
  ⟨fun _ => rfl, rfl, fun _ _ _ => rfl, fun _ _ _ _ h => ⟨h, fun _ _ => rfl⟩, fun _ _ _ _ _ _ => rfl⟩

theorem trans (h : Confines l a i s s₁) (h' : Confines l a i s₁ s₂) : Confines l a i s s₂ where
  layoutOf b := (h'.layoutOf b).trans (h.layoutOf b)
  contexts := h'.contexts.trans h.contexts
  content b j hne := (h'.content b j hne).trans (h.content b j hne)
  slots k j info hne hslot := by
    obtain ⟨hslot₁, hstable₁⟩ := h.slots k j info hne hslot
    obtain ⟨hslot₂, hstable₂⟩ := h'.slots k j info hne hslot₁
    exact ⟨hslot₂, fun t ht => (hstable₂ t ht).trans (hstable₁ t ht)⟩
  guards j info hne hslot g hg := by
    have hslot₁ := (h.slots l j info (fun _ => hne) hslot).1
    exact (h'.guards j info hne hslot₁ g hg).trans (h.guards j info hne hslot g hg)

/-- Only what is remembered of lookups has changed. -/
theorem of_swept (h : s.Swept s₁) (l : LayoutId) (a : ActivationId) (i : Nat) : Confines l a i s s₁ := by
  have hslot : ∀ k j, s₁.slot? k j = s.slot? k j := fun k j => by rw [slot?, (h.layout k).slots, ← slot?]
  have hactivation : ∀ b, s₁.activation b = s.activation b := fun b => by rw [activation, h.activations, ← activation]
  have hstable : ∀ t, s₁.stable t = s.stable t := fun t => by
    rw [h.eq]
    rfl
  exact {
    layoutOf b := by rw [Store.layoutOf, hactivation, ← Store.layoutOf]
    contexts := by rw [h.eq]
    content b j _ := by rw [Store.content, hactivation, ← Store.content]
    slots k j info _ hinfo := ⟨(hslot k j).trans hinfo, fun t _ => hstable t⟩
    guards j info _ _ g _ := by
      rw [h.eq]
      rfl }

end Confines

/-! ## Guards -/

/-- **Slots of a layout have guards of their own.** -/
theorem Furnished.disjoint (hf : s.Furnished) {info' : SlotInfo} (hi : s.slot? l i = some info)
    (hj : s.slot? l j = some info') (hne : j ≠ i) {g : GuardId} (hg : g ∈ info.guards) : g ∉ info'.guards := by
  have hnodup := (List.nodup_cons.1 (hf.own l (allocated_of_slot? hi)).1).2
  have hpairs := (List.nodup_flatMap.1 hnodup).2
  obtain ⟨hi', rfl⟩ := Array.getElem?_eq_some_iff.1 hi
  obtain ⟨hj', rfl⟩ := Array.getElem?_eq_some_iff.1 hj
  rw [List.pairwise_iff_getElem] at hpairs
  intro hg'
  rcases Nat.lt_or_gt_of_ne hne with hlt | hlt
  · exact hpairs j i (by simpa using hj') (by simpa using hi') hlt (by simpa using hg') (by simpa using hg)
  · exact hpairs i j (by simpa using hi') (by simpa using hj') hlt (by simpa using hg) (by simpa using hg')

/-- The guard for active bindings is that of no slot. -/
theorem Furnished.apart (hf : s.Furnished) (hj : s.slot? l j = some info) :
    (s.layout l).noActiveBinding ∉ info.guards := by
  intro hg
  apply (List.nodup_cons.1 (hf.own l (allocated_of_slot? hj)).1).1
  rw [List.mem_flatMap]
  exact ⟨info, Array.mem_toList_iff.2 (Array.mem_of_getElem? hj), hg⟩

theorem guardValid_invalidate_of_ne {g h : GuardId} (hne : h ≠ g) : (s.invalidate g).guardValid h = s.guardValid h := by
  rw [guardValid, guard_invalidate, if_neg]
  · rfl
  · rintro ⟨heq, -⟩
    cases h
    cases g
    exact hne (congrArg GuardId.mk heq)

/-! ## Changes -/

theorem confines_invalidate {g : GuardId} (hg : ∀ j info, j ≠ i → s.slot? l j = some info → g ∉ info.guards) :
    Confines l a i s (s.invalidate g) := by
  refine ⟨fun _ => rfl, rfl, fun _ _ _ => rfl, fun _ _ _ _ h => ⟨h, fun _ _ => rfl⟩, fun j info hne hslot h hh => ?_⟩
  apply guardValid_invalidate_of_ne
  rintro rfl
  exact hg j info hne hslot hh

theorem confines_setContent (l : LayoutId) (ha : s.Allocated (.activation a)) (c : SlotContent) :
    Confines l a i s (s.setContent a i c) := by
  refine ⟨fun b => s.layoutOf_setContent a b i c, rfl, fun b j hne => ?_, fun _ _ _ _ h => ⟨h, fun _ _ => rfl⟩,
    fun _ _ _ _ _ _ => rfl⟩
  rw [content_setContent _ b i j c ha, if_neg]
  rintro ⟨rfl, rfl⟩
  exact hne rfl rfl

/-- A slot of the layout has been changed, and stable values that are no tokens of other slots. -/
theorem confines_modifySlot {f : SlotInfo → SlotInfo} (hlayouts : s₁.layouts = s.layouts)
    (hactivations : s₁.activations = s.activations) (hcontexts : s₁.contexts = s.contexts)
    (hguards : s₁.guards = s.guards)
    (hstable : ∀ k j t, (k = l → j ≠ i) → s.token k j = some t → s₁.stable t = s.stable t) :
    Confines l a i s (s₁.modifySlot l i f) := by
  have hactivation : ∀ b, (s₁.modifySlot l i f).activation b = s.activation b := fun b => by
    show s₁.activation b = s.activation b
    rw [activation, hactivations, ← activation]
  refine ⟨fun b => ?_, hcontexts, fun b j _ => ?_, fun k j info hne hslot => ⟨?_, fun t ht => ?_⟩,
    fun j info _ _ g _ => ?_⟩
  · rw [layoutOf, hactivation, ← layoutOf]
  · rw [content, hactivation, ← content]
  · rw [slot?_modifySlot, if_neg]
    · rwa [slot?, layout, hlayouts, ← layout, ← slot?]
    · rintro ⟨rfl, rfl⟩
      exact hne rfl rfl
  · exact hstable k j t hne (token_eq_some.2 ⟨info, hslot, ht⟩)
  · show s₁.guardValid g = s.guardValid g
    rw [guardValid, guard, hguards, ← guard, ← guardValid]

theorem stable_invalidateStable_of_ne {t u : StableId} (hne : u ≠ t) :
    (s.invalidateStable t).stable u = s.stable u := by
  have hget := Array.getD_modify s.stables t.index u.index fun v => { v with guard := v.guard.fallen }
  unfold stable invalidateStable
  rw [hget, if_neg]
  rintro ⟨heq, -⟩
  cases u
  cases t
  exact hne (congrArg StableId.mk heq)

/-- The token of a slot is no other slot's. -/
theorem token_ne (hs : s.Sound) {t u : StableId} (ht : s.token l i = some t) (hne : k = l → j ≠ i)
    (hu : s.token k j = some u) : u ≠ t := by
  rintro rfl
  obtain ⟨rfl, rfl⟩ := hs.bindings.unshared k j l i u hu ht
  exact hne rfl rfl

/-- What is tracked may change, but not by another token than that of the slot. Contents do not matter. -/
theorem confines_recordWrite {s₀ : Store} (hs : s₀.Sound) (hlayouts : s.layouts = s₀.layouts)
    (hstables : s.stables = s₀.stables) (v : Option Value) : Confines l a i s ((recordWrite l i v).run s).2 := by
  have htoken : ∀ k j, s.token k j = s₀.token k j := fun k j => by
    unfold token slot? layout
    rw [hlayouts]
  rw [recordWrite_run]
  cases hslot : s.slot? l i with
  | none => exact .refl l a i s
  | some info =>
      dsimp only
      cases ht : info.stable with
      | none => exact .refl l a i s
      | some t =>
          dsimp only
          have hother : ∀ k j u, (k = l → j ≠ i) → s.token k j = some u → u ≠ t ∧ u.index < s.stables.size := by
            intro k j u hne hu
            rw [htoken] at hu
            refine ⟨token_ne hs ((htoken l i).symm.trans (token_eq_some.2 ⟨info, hslot, ht⟩)) hne hu, ?_⟩
            rw [hstables]
            exact hs.wellFormed.token hu
          split
          · exact .refl l a i s
          · unfold replaceStable
            dsimp only
            split
            · refine confines_modifySlot rfl rfl rfl rfl fun k j u hne hu => ?_
              obtain ⟨hne', hlt⟩ := hother k j u hne hu
              have hsize : (s.invalidateStable t).stables.size = s.stables.size := Array.size_modify
              rw [stable_addStable, if_neg (by rw [hsize]; exact Nat.ne_of_lt hlt)]
              exact stable_invalidateStable_of_ne hne'
            · exact confines_modifySlot rfl rfl rfl rfl fun k j u hne hu =>
                stable_invalidateStable_of_ne (hother k j u hne hu).1

theorem confines_dropStable (hs : s.Sound) : Confines l a i s (s.dropStable l i) := by
  unfold dropStable
  split
  · exact .refl l a i s
  · rename_i info hslot
    have hgiveUp : Confines l a i s (s.modifySlot l i (·.giveUp)) :=
      confines_modifySlot rfl rfl rfl rfl fun _ _ _ _ _ => rfl
    dsimp only
    split
    · exact hgiveUp
    · rename_i t ht
      have hinvalidate : Confines l a i s ((s.invalidateStable t).modifySlot l i (·.giveUp)) :=
        confines_modifySlot rfl rfl rfl rfl fun k j u hne hu =>
          stable_invalidateStable_of_ne (token_ne hs (token_eq_some.2 ⟨info, hslot, ht⟩) hne hu)
      exact hinvalidate

theorem confines_noteWrite (hf : s.Furnished) {info₀ : SlotInfo} (hslot : s.slot? l i = some info)
    (hkeeps : info₀.Keeps info) (nonLocal irregular : Bool) :
    Confines l a i s (s.noteWrite info₀ nonLocal irregular) := by
  unfold noteWrite
  split
  · refine confines_invalidate fun j info' hne hslot' => hf.disjoint hslot hslot' hne ?_
    simp [SlotInfo.guards, hkeeps.notModified]
  · exact .refl l a i s

/-- A slot has been added, which is the last one then. -/
theorem confines_widened (hs : s.WellFormed) (hf : s.Furnished) (hl : s.Allocated (.layout l)) (n : Name)
    (a : ActivationId) : Confines l a (s.layout l).slots.size s (s.widened l n) := by
  obtain ⟨info, -, hw⟩ := widens_widened hl n
  refine ⟨hw.layoutOf, hw.contexts, fun b j _ => ?_, fun k j info' hne hslot => ⟨?_, fun t ht => hw.stable t ?_⟩,
    fun j info' _ hslot g hg => ?_⟩
  · rw [content, hw.activation, ← content]
  · rw [hw.slot?, if_neg]
    · exact hslot
    · rintro ⟨rfl, rfl⟩
      exact hne rfl rfl
  · exact hs.token (token_eq_some.2 ⟨info', hslot, ht⟩)
  · -- The guards of the new slot are added after this one.
    have hmade : g.index < s.guards.size := (hf.own l hl).2 g (mem_ownGuards hslot hg)
    have hadded : ∀ label label', ((s.addGuard label).addGuard label').guard g = s.guard g := fun label label' => by
      have hsize : (s.addGuard label).guards.size = s.guards.size + 1 := Array.size_push _
      rw [guard_addGuard, if_neg (by omega), guard_addGuard, if_neg (Nat.ne_of_lt hmade)]
    have hguard : (s.widened l n).guard g = s.guard g := by
      unfold widened
      dsimp only
      split <;> exact hadded _ _
    rw [guardValid, hguard, ← guardValid]

/-! ## Operations -/

theorem confines_findOrAddSlot (hs : s.WellFormed) (hf : s.Furnished) (hl : s.Allocated (.layout l)) (n : Name)
    (a : ActivationId) : Confines l a ((findOrAddSlot l n).run s).1 s ((findOrAddSlot l n).run s).2 := by
  rw [findOrAddSlot_run]
  split
  · exact .refl l a _ s
  · exact (confines_widened hs hf hl n a).trans (.of_swept (swept_invalidateNames _ l [n]) l a _)

theorem confines_noted (hf : s.Furnished) (a : ActivationId) (i : Nat) (v : Value) :
    Confines (s.layoutOf a) a i s (s.noted a v) := by
  unfold noted
  split
  · exact confines_invalidate fun j info _ hslot => hf.apart hslot
  · exact .refl _ a i s

theorem confines_store (hs : s.Sound) (ha : s.Allocated (.activation a)) (i : Nat) (v : Value) :
    Confines (s.layoutOf a) a i s ((store a i v).run s).2 := by
  rw [store_run]
  split
  · exact confines_setContent _ ha _
  · refine (confines_recordWrite hs rfl rfl (some v)).trans (confines_setContent _ ?_ _)
    show a.index < ((recordWrite (s.layoutOf a) i (some v)).run s).2.activations.size
    rwa [activations_recordWrite]

theorem confines_empty (hs : s.Sound) (ha : s.Allocated (.activation a)) (i : Nat) :
    Confines (s.layoutOf a) a i s ((empty a i).run s).2 := by
  rw [empty_run]
  dsimp only
  split
  · exact confines_recordWrite hs rfl rfl none
  · have hcontent : Confines (s.layoutOf a) a i s (s.setContent a i (s.emptiedContent a i)) :=
      confines_setContent _ ha _
    have hlayouts : (s.setContent a i (s.emptiedContent a i)).layouts = s.layouts := rfl
    have hstables : (s.setContent a i (s.emptiedContent a i)).stables = s.stables := rfl
    generalize s.setContent a i (s.emptiedContent a i) = s₁ at *
    exact hcontent.trans (confines_recordWrite hs hlayouts hstables none)

theorem wanes_store (s : Store) (a : ActivationId) (i : Nat) (v : Value) : s.Wanes ((store a i v).run s).2 := by
  have hmarks : s.Marks (fun _ => True) ((store a i v).run s).2 := marks_store fun _ => Or.inr trivial
  exact hmarks.toWanes

/-- The stores that a write goes through: it may end with a sweep, before it is noted. -/
theorem write_stages {slot : Nat} {info : SlotInfo} (hslot : s.slot? (s.layoutOf a) slot = some info) (v : Value)
    (nonLocal : Bool) : ∃ s₁ s₂ irregular, ((store a slot v).run (s.noted a v)).2 = s₁
      ∧ (s₂ = s₁ ∨ s₂ = s₁.invalidateNames (s.layoutOf a) [info.name])
      ∧ (((store a slot v).run (s.noted a v)).1 = true → s₂ = s₁.invalidateNames (s.layoutOf a) [info.name])
      ∧ ((write a slot v nonLocal).run.run s).2 = s₂.noteWrite info nonLocal irregular := by
  rw [write_run, hslot]
  dsimp only
  generalize (store a slot v).run (s.noted a v) = result
  rcases result with ⟨_ | _, s₁⟩
  · exact ⟨s₁, s₁, _, rfl, Or.inl rfl, fun hfilled => absurd hfilled Bool.false_ne_true, rfl⟩
  · exact ⟨s₁, s₁.invalidateNames (s.layoutOf a) [info.name], _, rfl, Or.inr rfl, fun _ => rfl, rfl⟩

/-- A store is sound after a value has been stored, and nothing that has to do with lookups has changed. -/
theorem stored_stage (hs : s.Sound) (ha : Ref.activation a ∈ s.roots) {slot : Nat} {info : SlotInfo}
    (hslot : s.slot? (s.layoutOf a) slot = some info) (hv : ∀ r ∈ v.refs, r ∈ s.roots)
    (hstored : ((store a slot v).run (s.noted a v)).2 = s₁) : s.Advances s₁ ∧ s.Still s₁ := by
  have hnoted := (aside_noted s a v).1
  have hn := hnoted.advances hs
  have hi : slot < ((s.noted a v).layout ((s.noted a v).layoutOf a)).slots.size := by
    rw [layoutOf, hnoted.activation, ← layoutOf, hnoted.layout]
    exact (Array.getElem?_eq_some_iff.1 hslot).1
  have hstore := advances_store (hn.sound hs) (hn.mem_roots ha) hi fun r hr => hn.mem_roots (hv r hr)
  rw [← hstored]
  exact ⟨hn.trans hs hstore, (still_noted s a v).trans (still_store (s.noted a v) a slot v)⟩

theorem confines_write (hs : s.Sound) (hf : s.Furnished) (ha : Ref.activation a ∈ s.roots) (slot : Nat) (v : Value)
    (nonLocal : Bool) :
    Confines (s.layoutOf a) a slot s ((write a slot v nonLocal).run.run s).2 := by
  cases hslot : s.slot? (s.layoutOf a) slot with
  | none =>
      rw [write_run, hslot]
      exact .refl _ a slot s
  | some info =>
      obtain ⟨s₁, s₂, irregular, hstored, hswept, -, hwrite⟩ := write_stages hslot v nonLocal
      have hnoted := (aside_noted s a v).1
      have hfirst : s.Marks (fun _ => True) (s.noted a v) := marks_noted s a v
      have hwanes : s.Wanes s₁ := hstored ▸ hfirst.toWanes.trans (wanes_store (s.noted a v) a slot v)
      have hstore : Confines (s.layoutOf a) a slot s s₁ := by
        have hsecond := confines_store ((hnoted.advances hs).sound hs)
          ((hnoted.allocated _).2 (hs.wellFormed.roots _ ha)) slot v
        rw [layoutOf, hnoted.activation, ← layoutOf, hstored] at hsecond
        exact (confines_noted hf a slot v).trans hsecond
      have hsweep : Confines (s.layoutOf a) a slot s₁ s₂ ∧ s₁.Wanes s₂ := by
        rcases hswept with rfl | rfl
        · exact ⟨.refl _ a slot s₂, .refl s₂⟩
        · have hsw := swept_invalidateNames s₁ (s.layoutOf a) [info.name]
          exact ⟨.of_swept hsw _ a slot, hsw.wanes⟩
      obtain ⟨info₂, hslot₂, hkeeps⟩ := (hwanes.trans hsweep.2).slots _ _ info hslot
      rw [hwrite]
      exact (hstore.trans hsweep.1).trans (confines_noteWrite ((hwanes.trans hsweep.2).furnished hf) hslot₂ hkeeps _ _)

theorem layoutOf_findOrAddSlot (s : Store) (l : LayoutId) (n : Name) (a : ActivationId) :
    ((findOrAddSlot l n).run s).2.layoutOf a = s.layoutOf a := by
  unfold layoutOf activation
  rw [(findOrAddSlot_spec s l n).2.1]

/-- **A name is bound in one slot**: that which is found or made for it. -/
theorem confines_bindName (hs : s.Sound) (hf : s.Furnished) (ha : Ref.activation a ∈ s.roots) (n : Name) (v : Value)
    (nonLocal : Bool) : Confines (s.layoutOf a) a ((findOrAddSlot (s.layoutOf a) n).run s).1 s
      ((bindName a n v nonLocal).run.run s).2 := by
  have hl := hs.wellFormed.layoutOf ha
  have hadd := advances_findOrAddSlot hs hl n
  have hmarks : s.Marks (fun _ => True) ((findOrAddSlot (s.layoutOf a) n).run s).2 := marks_findOrAddSlot s _ n
  have hwrite := confines_write (hadd.sound hs) (hmarks.furnished hf) (hadd.mem_roots ha)
    ((findOrAddSlot (s.layoutOf a) n).run s).1 v nonLocal
  rw [layoutOf_findOrAddSlot] at hwrite
  rw [bindName_run]
  exact (confines_findOrAddSlot hs.wellFormed hf hl n a).trans hwrite

theorem confines_remove (hs : s.Sound) (hf : s.Furnished) (ha : Ref.activation a ∈ s.roots)
    (hi : s.slotOf? a n = some i) : Confines (s.layoutOf a) a i s ((remove a n).run s).2 := by
  rw [remove_run, hi]
  dsimp only
  cases hslot : s.slot? (s.layoutOf a) i with
  | none => exact .refl _ a i s
  | some info =>
      dsimp only
      have hempty := confines_empty hs (hs.wellFormed.roots _ ha) i
      have hmarks : s.Marks (fun _ => True) ((empty a i).run s).2 := marks_empty s a i
      obtain ⟨info₁, hslot₁, hkeeps⟩ := hmarks.toWanes.slots _ _ info hslot
      exact (hempty.trans (confines_noteWrite (hmarks.furnished hf) hslot₁ hkeeps _ _)).trans
        (.of_swept (swept_invalidateNames _ _ [n]) _ a i)

theorem confines_giveUpSharing (hs : s.Sound) (hf : s.Furnished) (hslot : s.slot? l i = some info) (a : ActivationId) :
    Confines l a i s (s.giveUpSharing l i info) := by
  have hs₁ := ((aside_invalidate s info.notModifiedNonLocally).advances hs).sound hs
  have hslot₁ : (s.invalidate info.notModifiedNonLocally).slot? l i = some info := hslot
  have hfirst : s.Wanes (s.invalidate info.notModifiedNonLocally) := wanes_invalidate s _
  obtain ⟨hdrop, -, hslot₂⟩ := wanes_dropStable hslot₁
  have hf₂ := (hfirst.trans hdrop).furnished hf
  have hinvalidate : Confines l a i s (s.invalidate info.notModifiedNonLocally) :=
    confines_invalidate fun j info' hne hslot' => hf.disjoint hslot hslot' hne (by simp [SlotInfo.guards])
  unfold giveUpSharing
  exact (hinvalidate.trans (confines_dropStable hs₁)).trans (confines_invalidate fun j info' hne hslot' =>
    hf₂.disjoint hslot₂ hslot' hne (by simp [SlotInfo.guards, SlotInfo.giveUp]))

theorem confines_writeInContext (hs : s.Sound) (hf : s.Furnished) (ha : Ref.activation a ∈ s.roots) (slot : Nat)
    (v : Value) : Confines (s.layoutOf a) a slot s ((writeInContext a slot v).run.run s).2 := by
  have halloc := hs.wellFormed.roots _ ha
  rw [writeInContext_run]
  split
  · exact .refl _ a slot s
  · rename_i info hslot
    split
    · exact confines_write hs hf ha slot v false
    · split
      · split
        · exact confines_setContent _ halloc _
        · obtain ⟨-, hactivations, -⟩ := wanes_dropStable
            (show (s.invalidate info.notModifiedNonLocally).slot? (s.layoutOf a) slot = some info from hslot)
          refine (confines_giveUpSharing hs hf hslot a).trans (confines_setContent _ ?_ _)
          show a.index < ((s.invalidate info.notModifiedNonLocally).dropStable (s.layoutOf a) slot).activations.size
          rw [hactivations]
          exact halloc
      · exact .refl _ a slot s

end Store

end ScopeCall
