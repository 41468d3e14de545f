import ScopeCall.Proofs.Nesting

/-!
# `ScopeCall.Proofs.Writing` — writes and lookups that they make wrong

A write that replaces a value makes the results that end at its slot invalid by themselves. A write that
fills an empty slot, or a new slot, comes into the way of lookups that went past; these are swept away
before the write is over. A removal leaves an invalid stable value, and sweeps besides.

## Contents
- **Slots.** `remembers_findOrAddSlot`.
- **Values.** `remembers_recordWrite`, `remembers_store`, `remembers_write` and `remembers_bindName`.
- **Removal.** `remembers_empty` and `remembers_remove`.
-/

namespace ScopeCall

namespace Store

variable {s s₁ s₂ : Store} {alive : LayoutId → Prop} {a : ActivationId}

/-! ## Slots -/

/-- A new slot is swept in. -/
theorem remembers_findOrAddSlot (h : s.Remembers alive fun _ _ => False) (hs : s.WellFormed)
    {l : LayoutId} (hl : s.Allocated (.layout l)) (n : Name)
    (hlasting : ((findOrAddSlot l n).run s).2.Lasting alive) :
    ((findOrAddSlot l n).run s).2.Remembers alive fun _ _ => False := by
  rw [findOrAddSlot_run] at hlasting ⊢
  split
  · exact h
  · rename_i hnone
    simp only [hnone] at hlasting
    obtain ⟨info, hname, hw⟩ := widens_widened hl n
    have hpending : (s.widened l n).Remembers alive fun k m => k = l ∧ m ∈ [n] :=
      h.widens hs hw (fun _ _ => False.elim) ⟨rfl, List.mem_singleton.2 hname⟩
    exact hpending.invalidateNames (hw.leads.wellFormed hs) (hw.leads.grows _ hl) (fun _ _ => id)
      hlasting

/-! ## Values -/

/-- Recording a value leaves a slot pending only if it was empty and is filled. -/
theorem remembers_recordWrite (h : s.Remembers alive fun _ _ => False) (hs : s.WellFormed)
    (l : LayoutId) (i : Nat) {v : Option Value}
    (hv : ∀ r ∈ (v.map Value.refs).getD [], s.Live r) :
    ((recordWrite l i v).run s).2.Remembers alive fun k m =>
      ((recordWrite l i v).run s).1 = true ∧ k = l ∧ (s.layout k).slotIndex? m = some i := by
  rcases recordWrite_cases hs l i hv with ⟨hsame, -, -⟩ | ⟨t, new, ht, hvalue, hre, hfilled⟩
  · rw [hsame]
    exact h.more fun _ _ => False.elim
  · refine h.retracks hs hre (fun _ _ => False.elim) (fun hnone => ?_) fun u hu hnone m _ hm =>
      ⟨?_, rfl, hm⟩
    · rw [ht] at hnone
      exact absurd hnone (by simp)
    obtain rfl := Option.some.inj (ht.symm.trans hu)
    rw [hfilled, hnone]
    cases v with
    | none => exact absurd hnone hvalue
    | some v => rfl

/-- Storing a value leaves a slot pending only if it was empty and is filled. -/
theorem remembers_store (h : s.Remembers alive fun _ _ => False) (hs : s.WellFormed)
    (a : ActivationId) (i : Nat) {v : Value} (hv : ∀ r ∈ v.refs, s.Live r) :
    ((store a i v).run s).2.Remembers alive fun k m =>
      ((store a i v).run s).1 = true ∧ k = s.layoutOf a ∧ (s.layout k).slotIndex? m = some i := by
  have hrecord := remembers_recordWrite h hs (s.layoutOf a) i (v := some v) hv
  rw [store_run]
  split
  · exact (h.setContent hs a i _).more fun _ _ => False.elim
  · have hleads : s.Leads ((recordWrite (s.layoutOf a) i (some v)).run s).2 := by
      rcases recordWrite_cases hs (s.layoutOf a) i (v := some v) hv with
        ⟨hsame, -, -⟩ | ⟨_, _, _, _, hre, -⟩
      · rw [hsame]
        exact .refl s
      · exact hre.leads
    exact hrecord.setContent (hleads.wellFormed hs) a i _

theorem aside_noted (s : Store) (a : ActivationId) (v : Value) :
    s.Aside (s.noted a v) ∧ (s.noted a v).lookups = s.lookups := by
  rw [noted]
  split
  · exact ⟨aside_invalidate s _, rfl⟩
  · exact ⟨⟨rfl, rfl, rfl, rfl, rfl, rfl, rfl, rfl, rfl⟩, rfl⟩

theorem aside_noteWrite (s : Store) (info : SlotInfo) (nonLocal irregular : Bool) :
    s.Aside (s.noteWrite info nonLocal irregular)
      ∧ (s.noteWrite info nonLocal irregular).lookups = s.lookups := by
  rw [noteWrite]
  split
  · exact ⟨aside_invalidate s _, rfl⟩
  · exact ⟨⟨rfl, rfl, rfl, rfl, rfl, rfl, rfl, rfl, rfl⟩, rfl⟩

/-- **A write sweeps what it makes wrong.** -/
theorem remembers_write (h : s.Remembers alive fun _ _ => False) (hs : s.Sound)
    (ha : Ref.activation a ∈ s.roots) (slot : Nat) {v : Value} (hv : ∀ r ∈ v.refs, r ∈ s.roots)
    (nonLocal : Bool) (hlasting : ((write a slot v nonLocal).run.run s).2.Lasting alive) :
    ((write a slot v nonLocal).run.run s).2.Remembers alive fun _ _ => False := by
  rw [write_run] at hlasting ⊢
  cases hslot : s.slot? (s.layoutOf a) slot with
  | none => exact h
  | some info =>
      simp only [hslot] at hlasting ⊢
      obtain ⟨hnoted, hlookups⟩ := aside_noted s a v
      have hn := hnoted.advances hs
      have hlayoutOf : (s.noted a v).layoutOf a = s.layoutOf a := by
        rw [layoutOf, hnoted.activation, ← layoutOf]
      have hslot' : (s.noted a v).slot? (s.layoutOf a) slot = some info := by
        rw [slot?, hnoted.layout]
        exact hslot
      have hi : slot < ((s.noted a v).layout ((s.noted a v).layoutOf a)).slots.size := by
        rw [hlayoutOf]
        exact (Array.getElem?_eq_some_iff.1 hslot').1
      have hv' : ∀ r ∈ v.refs, r ∈ (s.noted a v).roots := fun r hr => hn.mem_roots (hv r hr)
      have hstored := remembers_store (h.aside hs.wellFormed hnoted hlookups)
        (hn.sound hs).wellFormed a slot
        fun r hr => live_of_mem_roots (hv' r hr)
      have hstore := advances_store (hn.sound hs) (hn.mem_roots ha) hi hv'
      have hs₁ := (hstore.sound (hn.sound hs)).wellFormed
      have hl := hstore.leads.grows _ (hn.leads.grows _ (hs.wellFormed.layoutOf ha))
      generalize (store a slot v).run (s.noted a v) = result at *
      rcases result with ⟨filled, s₁⟩
      dsimp only at hlasting hstored hs₁ hl ⊢
      -- The slot that was filled is the one for its name.
      have hswept : (if filled then s₁.invalidateNames (s.layoutOf a) [info.name] else s₁).Remembers
            alive (fun _ _ => False)
          ∧ (if filled then s₁.invalidateNames (s.layoutOf a) [info.name] else s₁).WellFormed := by
        cases filled with
        | false => exact ⟨hstored.more fun _ _ hp => absurd hp.1 Bool.false_ne_true, hs₁⟩
        | true =>
            refine ⟨hstored.invalidateNames hs₁ hl ?_
              (hlasting.before ((Leads.refl _).aside (aside_noteWrite _ _ _ _).1)),
              ((Spares.refl s₁).invalidateNames _ _).leads.wellFormed hs₁⟩
            rintro k m ⟨-, rfl, hm⟩
            obtain ⟨info', hinfo', hname⟩ := Layout.slotIndex?_eq_some hm
            rw [hlayoutOf] at hinfo'
            have hsame : info = info' := Option.some.inj (hslot'.symm.trans hinfo')
            rw [hsame, hname]
            exact ⟨hlayoutOf, List.mem_cons_self⟩
      exact hswept.1.aside hswept.2 (aside_noteWrite _ _ _ _).1 (aside_noteWrite _ _ _ _).2

theorem remembers_bindName (h : s.Remembers alive fun _ _ => False) (hs : s.Sound)
    (ha : Ref.activation a ∈ s.roots) (n : Name) {v : Value} (hv : ∀ r ∈ v.refs, r ∈ s.roots)
    (nonLocal : Bool) (hlasting : ((bindName a n v nonLocal).run.run s).2.Lasting alive) :
    ((bindName a n v nonLocal).run.run s).2.Remembers alive fun _ _ => False := by
  rw [bindName_run] at hlasting ⊢
  have hl := hs.wellFormed.layoutOf ha
  have hadd := advances_findOrAddSlot hs hl n
  have hwrite := advances_write (hadd.sound hs) (hadd.mem_roots ha)
    ((findOrAddSlot (s.layoutOf a) n).run s).1 (fun r hr => hadd.mem_roots (hv r hr)) nonLocal
  exact remembers_write (remembers_findOrAddSlot h hs.wellFormed hl n (hlasting.before hwrite.leads))
    (hadd.sound hs) (hadd.mem_roots ha) _ (fun r hr => hadd.mem_roots (hv r hr)) nonLocal hlasting

/-! ## Removal -/

/-- Emptying a slot leaves nothing pending: a result that ended there is not valid any more. -/
theorem remembers_empty (h : s.Remembers alive fun _ _ => False) (hs : s.WellFormed)
    (ha : s.Live (.activation a)) (i : Nat) :
    ((empty a i).run s).2.Remembers alive fun _ _ => False := by
  rw [empty_run]
  dsimp only
  have hmid : ∀ s₁, s₁ = (if s.content a i = .empty then s
        else s.setContent a i (s.emptiedContent a i)) →
      s₁.Remembers alive (fun _ _ => False) ∧ s₁.WellFormed := by
    rintro s₁ rfl
    split
    · exact ⟨h, hs⟩
    · refine ⟨h.setContent hs a i _, ?_⟩
      exact (onward_setContent_emptied hs ha i).leads.wellFormed hs
  obtain ⟨hrem, hwf⟩ := hmid _ rfl
  refine (remembers_recordWrite hrem hwf (s.layoutOf a) i (v := none) (by simp)).more ?_
  rintro k m ⟨hfilled, -⟩
  rcases recordWrite_cases hwf (s.layoutOf a) i (v := none) (by simp) with
    ⟨-, hno, -⟩ | ⟨_, _, _, _, -, hno⟩
  · rw [hno] at hfilled
    exact absurd hfilled Bool.false_ne_true
  · rw [hno] at hfilled
    simp at hfilled

theorem remembers_remove (h : s.Remembers alive fun _ _ => False) (hs : s.Sound)
    (ha : Ref.activation a ∈ s.roots) (n : Name) (hlasting : ((remove a n).run s).2.Lasting alive) :
    ((remove a n).run s).2.Remembers alive fun _ _ => False := by
  rw [remove_run] at hlasting ⊢
  cases hslotOf : s.slotOf? a n with
  | none => exact h
  | some slot =>
      cases hslot : s.slot? (s.layoutOf a) slot with
      | none =>
          simp only [hslot]
          exact h
      | some info =>
          simp only [hslotOf, hslot] at hlasting ⊢
          have hempty := advances_empty hs ha (Array.getElem?_eq_some_iff.1 hslot).1
          have hrem := remembers_empty h hs.wellFormed (live_of_mem_roots ha) slot
          have hl := hempty.leads.grows _ (hs.wellFormed.layoutOf ha)
          have hs₁ := (hempty.sound hs).wellFormed
          generalize ((empty a slot).run s).2 = s₁ at *
          obtain ⟨haside, hlookups⟩ := aside_noteWrite s₁ info false (s₁.activation a).irregular
          exact (hrem.aside hs₁ haside hlookups).invalidateNames
            (((Leads.refl s₁).aside haside).wellFormed hs₁) ((haside.allocated _).2 hl)
            (fun _ _ => False.elim) hlasting

/-- Marking an activation concerns no lookup. -/
theorem remembers_markIrregular (h : s.Remembers alive fun _ _ => False) (hs : s.WellFormed)
    (a : ActivationId) : (s.markIrregular a).Remembers alive fun _ _ => False := by
  have hpart : ∀ {α : Type} (part : Activation → α),
      (∀ x : Activation, part { x with irregular := true } = part x) → ∀ b,
      part ((s.markIrregular a).activation b) = part (s.activation b) := fun part hpart b =>
    activation_modifyActivation_congr s part a b _ (hpart _)
  exact h.quiet_same hs ⟨fun b => Leads.allocated_modifyActivation s a _ _, fun _ hk => hk,
    hpart Activation.layout fun _ => rfl, hpart Activation.enclosing fun _ => rfl, fun _ => rfl, rfl,
    rfl⟩ rfl rfl

end Store

end ScopeCall
