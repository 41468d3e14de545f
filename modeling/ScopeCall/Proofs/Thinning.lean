import ScopeCall.Proofs.Confining
import ScopeCall.Proofs.Reaching

/-!
# `ScopeCall.Proofs.Thinning` — which results an assignment may take

An assignment sweeps for one name only, from the layout where it is assigned. So a result is lost only if it is one for
this name, and the name is on record at its layout, and all the way up to the layout of the assignment. Whatever else
is remembered stays, with its guard.

## Contents
- **Thinning.** `Store.Thins`: results for a name are lost where it is on record all the way up.
- **Sweeps.** `thins_invalidateNames`.
- **Operations.** Slots, writes, bindings, writes for contexts, and removals.
-/

namespace ScopeCall

namespace Store

variable {s s₁ s₂ : Store} {l k : LayoutId} {a : ActivationId} {n : Name} {v : Value}

/-! ## Thinning -/

/-- Only results for `n` have been lost, where it was on record all the way up to `l`. -/
structure Thins (n : Name) (l : LayoutId) (s s' : Store) : Prop where
  parent : ∀ k p, s'.parent k = some p → s.parent k = some p
  recorded : ∀ k m, m ∈ (s'.layout k).recorded → m ∈ (s.layout k).recorded
  memos : ∀ k, ∀ m ∈ (s'.layout k).memos, m ∈ (s.layout k).memos
  guards : ∀ g, s.lookupValid g = true → s'.lookupValid g = true
    ∨ ∃ k r, (n, r) ∈ (s.layout k).memos ∧ r.guard = g ∧ s.RecordedUpTo n l k

theorem Thins.refl (n : Name) (l : LayoutId) (s : Store) : Thins n l s s :=
  ⟨fun _ _ => id, fun _ _ => id, fun _ _ => id, fun _ => Or.inl⟩

/-- What was on record all the way up after a change was so before. -/
theorem Thins.recordedUpTo (h : Thins n l s s₁) (hk : s₁.RecordedUpTo n l k) : s.RecordedUpTo n l k := by
  induction hk with
  | here hn => exact .here (h.recorded _ _ hn)
  | up hn hp _ ih => exact .up (h.recorded _ _ hn) (h.parent _ _ hp) ih

theorem Thins.trans (h : Thins n l s s₁) (h' : Thins n l s₁ s₂) : Thins n l s s₂ where
  parent k p hp := h.parent k p (h'.parent k p hp)
  recorded k m hm := h.recorded k m (h'.recorded k m hm)
  memos k m hm := h.memos k m (h'.memos k m hm)
  guards g hg := by
    rcases h.guards g hg with hg₁ | hlost
    · refine (h'.guards g hg₁).imp_right ?_
      rintro ⟨k, r, hm, hr, hk⟩
      exact ⟨k, r, h.memos k _ hm, hr, h.recordedUpTo hk⟩
    · exact Or.inr hlost

theorem Still.thins (h : s.Still s₁) (hs : s.WellFormed) (hleads : s.Leads s₁) : Thins n l s s₁ where
  parent k p hp := by
    obtain ⟨hlink, hlive⟩ := (parent_eq_some_iff (hleads.wellFormed hs)).1 hp
    rw [h.part Layout.enclosing fun _ => rfl] at hlink
    exact parent_before hs (fun q => hleads.live) hlink hlive
  recorded k m hm := by rwa [h.part Layout.recorded fun _ => rfl] at hm
  memos k m hm := by rwa [h.part Layout.memos fun _ => rfl] at hm
  guards g hg := by
    refine Or.inl ?_
    rwa [lookupValid, lookup, h.lookups, ← lookup, ← lookupValid]

theorem Justified.fades {alive : LayoutId → Prop} (hj : s.Justified) (h : s.Fades alive s₁) (hleads : s.Leads s₁) :
    s₁.Justified := by
  intro q hq c hc
  rw [h.children] at hc
  rw [h.enclosing]
  exact hj q (hleads.live hq (allocated_of_mem_children hc)) c hc

/-! ## Sweeps -/

/-- The region that a sweep for a name reaches is on record all the way up. -/
theorem recordedUpTo_of_region (hs : s.WellFormed) (hj : s.Justified) (hl : s.Live (.layout l))
    {heirs : LayoutId → LayoutId → Prop} (hheirs : ∀ p c, heirs p c → c ∈ s.liveChildren p)
    (h : Region (s.RecordsAny [n]) heirs l k) : s.Live (.layout k) ∧ s.RecordedUpTo n l k := by
  have hrecorded : ∀ {j}, s.RecordsAny [n] j → n ∈ (s.layout j).recorded := by
    rintro j ⟨m, hm, hin⟩
    rwa [List.mem_singleton.1 hm] at hin
  induction h with
  | start h => exact ⟨hl, .here (hrecorded h)⟩
  | @onward p c _ hc h ih =>
      have hchild := hheirs p c hc
      refine ⟨live_of_mem_liveChildren hs hchild, .up (hrecorded h) ?_ ih.2⟩
      exact (parent_eq_some_iff hs).2 ⟨hj p ih.1 c (mem_children_of_liveChildren hchild), ih.1⟩

/-- **A sweep for a name thins.** -/
theorem thins_invalidateNames (hs : s.WellFormed) (hj : s.Justified) (hl : s.Live (.layout l)) (n : Name) :
    Thins n l s (s.invalidateNames l [n]) := by
  obtain ⟨-, heirs, hbetween, hforgets⟩ := forgets_invalidateNames hs hl [n]
  have hleads := ((Spares.refl s).invalidateNames l [n]).leads
  have htidies := tidies_invalidateNames s l [n]
  generalize s.invalidateNames l [n] = s' at *
  refine ⟨fun k p hp => ?_, fun k m hm => ((hforgets.recorded k m).1 hm).1, htidies.memos, fun g hg => ?_⟩
  · obtain ⟨hlink, hlive⟩ := (parent_eq_some_iff (hleads.wellFormed hs)).1 hp
    rw [hforgets.layout] at hlink
    exact parent_before hs (fun q => hleads.live) hlink hlive
  · by_cases hg' : s'.lookupValid g = true
    · exact Or.inl hg'
    · rw [hforgets.guards, and_iff_right hg] at hg'
      push Not at hg'
      obtain ⟨k, m, r, hR, hm, hin, hr⟩ := hg'
      obtain rfl := List.mem_singleton.1 hm
      exact Or.inr ⟨k, r, hin, hr, (recordedUpTo_of_region hs hj hl hbetween.begun hR).2⟩

/-- Where all that is on record has stayed, a sweep thins as it would have before. -/
theorem Still.thins_sweep (h : s.Still s₁) (hs : s.WellFormed) (hj : s.Justified) (hleads : s.Leads s₁)
    (hl : s₁.Live (.layout l)) (n : Name) : Thins n l s (s₁.invalidateNames l [n]) := by
  have hj₁ : s₁.Justified := hj.fades (h.fades fun _ => False) hleads
  exact (h.thins hs hleads).trans (thins_invalidateNames (hleads.wellFormed hs) hj₁ hl n)

theorem Still.live_layoutOf (h : s.Still s₁) (hs : s.Sound) (hadv : s.Advances s₁) (ha : Ref.activation a ∈ s.roots) :
    s₁.Live (.layout (s.layoutOf a)) := by
  have hl := (hadv.live ha).layoutOf (hadv.leads.wellFormed hs.wellFormed)
  rwa [(h.scopes a (hs.wellFormed.roots _ ha)).2] at hl

/-! ## Operations -/

theorem thins_write (hs : s.Sound) (hj : s.Justified) (ha : Ref.activation a ∈ s.roots) {slot : Nat}
    (hname : ∀ info, s.slot? (s.layoutOf a) slot = some info → info.name = n) (hv : ∀ r ∈ v.refs, r ∈ s.roots)
    (nonLocal : Bool) : Thins n (s.layoutOf a) s ((write a slot v nonLocal).run.run s).2 := by
  cases hslot : s.slot? (s.layoutOf a) slot with
  | none =>
      rw [write_run, hslot]
      exact .refl n _ s
  | some info =>
      obtain ⟨s₁, s₂, irregular, hstored, hswept, -, hwrite⟩ := write_stages hslot v nonLocal
      obtain ⟨hadv, hstill⟩ := stored_stage hs ha hslot hv hstored
      have hs₁ := hadv.leads.wellFormed hs.wellFormed
      have hsweep : Thins n (s.layoutOf a) s s₂ ∧ s₂.WellFormed := by
        rcases hswept with rfl | rfl
        · exact ⟨hstill.thins hs.wellFormed hadv.leads, hs₁⟩
        · rw [hname info hslot]
          refine ⟨hstill.thins_sweep hs.wellFormed hj hadv.leads (hstill.live_layoutOf hs hadv ha) n, ?_⟩
          exact (((Spares.refl s₁).invalidateNames _ _).leads).wellFormed hs₁
      have hnote := (aside_noteWrite s₂ info nonLocal irregular).1
      rw [hwrite]
      exact hsweep.1.trans
        ((still_noteWrite s₂ info nonLocal irregular).thins hsweep.2 ((Leads.refl s₂).aside hnote))

theorem thins_findOrAddSlot (hs : s.WellFormed) (hj : s.Justified) (ha : Ref.activation a ∈ s.roots) (n : Name) :
    Thins n (s.layoutOf a) s ((findOrAddSlot (s.layoutOf a) n).run s).2 := by
  rw [findOrAddSlot_run]
  split
  · exact .refl n _ s
  · obtain ⟨info, -, hw⟩ := widens_widened (hs.layoutOf ha) n
    have hstill := still_widened s (s.layoutOf a) n
    have hs₁ := hw.leads.wellFormed hs
    have hl : (s.widened (s.layoutOf a) n).Live (.layout (s.layoutOf a)) := by
      have hlive := (live_of_mem_roots (hw.held ▸ ha)).layoutOf hs₁
      rwa [hw.layoutOf] at hlive
    exact hstill.thins_sweep hs hj hw.leads hl n

theorem thins_bindName (hs : s.Sound) (hj : s.Justified) (ha : Ref.activation a ∈ s.roots) (n : Name)
    (hv : ∀ r ∈ v.refs, r ∈ s.roots) (nonLocal : Bool) :
    Thins n (s.layoutOf a) s ((bindName a n v nonLocal).run.run s).2 := by
  have hl := hs.wellFormed.layoutOf ha
  have hadd := advances_findOrAddSlot hs hl n
  have hfades : s.Fades (fun _ => False) ((findOrAddSlot (s.layoutOf a) n).run s).2 :=
    fades_findOrAddSlot hs.wellFormed hl n fun _ => False.elim
  have hfirst := thins_findOrAddSlot hs.wellFormed hj ha n
  have hsame := layoutOf_findOrAddSlot s (s.layoutOf a) n a
  have hname : ∀ info, ((findOrAddSlot (s.layoutOf a) n).run s).2.slot? (s.layoutOf a)
      ((findOrAddSlot (s.layoutOf a) n).run s).1 = some info → info.name = n := fun _ hslot =>
    name_of_slotIndex? ((findOrAddSlot_spec s (s.layoutOf a) n).2.2 hl) hslot
  rw [bindName_run]
  generalize (findOrAddSlot (s.layoutOf a) n).run s = result at *
  obtain ⟨i, s₁⟩ := result
  dsimp only at *
  have hwrite : Thins n (s₁.layoutOf a) s₁ ((write a i v nonLocal).run.run s₁).2 := by
    apply thins_write (hadd.sound hs) (hj.fades hfades hadd.leads) (hadd.mem_roots ha)
    · rwa [hsame]
    · exact fun r hr => hadd.mem_roots (hv r hr)
  rw [hsame] at hwrite
  exact hfirst.trans hwrite

theorem thins_remove (hs : s.Sound) (hj : s.Justified) (ha : Ref.activation a ∈ s.roots) (n : Name) :
    Thins n (s.layoutOf a) s ((remove a n).run s).2 := by
  rw [remove_run]
  split
  · exact .refl n _ s
  · rename_i slot _
    cases hslot : s.slot? (s.layoutOf a) slot with
    | none => exact .refl n _ s
    | some info =>
        dsimp only
        have hempty := advances_empty hs ha (Array.getElem?_eq_some_iff.1 hslot).1
        have hstill := still_empty s a slot
        generalize ((empty a slot).run s).2 = s₁ at hempty hstill ⊢
        have hnote := (aside_noteWrite s₁ info false (s₁.activation a).irregular).1
        have hadv := hempty.trans hs (hnote.advances (hempty.sound hs))
        replace hstill := hstill.trans (still_noteWrite s₁ info false (s₁.activation a).irregular)
        generalize s₁.noteWrite info false (s₁.activation a).irregular = s₂ at hadv hstill ⊢
        exact hstill.thins_sweep hs.wellFormed hj hadv.leads (hstill.live_layoutOf hs hadv ha) n

theorem thins_writeInContext (hs : s.Sound) (hj : s.Justified) (ha : Ref.activation a ∈ s.roots) {slot : Nat}
    (hname : ∀ info, s.slot? (s.layoutOf a) slot = some info → info.name = n) (hv : ∀ r ∈ v.refs, r ∈ s.roots) :
    Thins n (s.layoutOf a) s ((writeInContext a slot v).run.run s).2 := by
  have hadv := advances_writeInContext hs ha slot hv
  rw [writeInContext_run] at hadv ⊢
  cases hslot : s.slot? (s.layoutOf a) slot with
  | none => exact .refl n _ s
  | some info =>
      simp only [hslot] at hadv ⊢
      by_cases hfirst : s.contexts.current = primordial
      · rw [if_pos hfirst]
        exact thins_write hs hj ha hname hv false
      · -- A value for another context is not swept for.
        rw [if_neg hfirst] at hadv ⊢
        refine Still.thins ?_ hs.wellFormed hadv.leads
        split
        · refine Still.trans ?_ (still_setContent _ a slot _)
          split
          · exact .refl s
          · exact still_giveUpSharing s _ slot info
        · exact .refl s

end Store

end ScopeCall
