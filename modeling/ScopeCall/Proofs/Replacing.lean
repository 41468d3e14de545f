import ScopeCall.Proofs.Confining
import ScopeCall.Proofs.Refining
import ScopeCall.Proofs.Relinking

/-!
# `ScopeCall.Proofs.Replacing` — what an operation does to one slot

An operation either leaves a slot alone, or it makes it hold a value or nothing. Then the layout is told, once: the
token stays if it describes this already, and is replaced or given up otherwise. A layout that is activated anew has
its slots emptied.

## Contents
- **Leaving a slot alone.** `Store.Leaves`.
- **Telling a layout.** `Store.Retold`: the token of a slot and the budget, when the slot comes to hold something.
- **Values and activations.** `Store.Passes` and `Store.Sets`, with what the live activation holds.
- **Writes and removals.**
- **New scopes.**
- **Operations.** `Operation.tells`, and `becomes_perform`.
-/

namespace ScopeCall

namespace Store

variable {s s₁ s₂ : Store} {l k : LayoutId} {a b : ActivationId} {i j : Nat} {info : SlotInfo} {n : Name} {v : Value}
  {w : Option Value}

/-! ## Leaving a slot alone -/

/-- The slot `i` of `l` is as it was, and tokens describe what they described. -/
structure Leaves (l : LayoutId) (i : Nat) (s s' : Store) : Prop where
  slot : ∀ info, s.slot? l i = some info → s'.slot? l i = some info
  tokens : ∀ t, s.Allocated (.stable t) → s'.Allocated (.stable t) ∧ (s'.stable t).value = (s.stable t).value

namespace Leaves

theorem of_slots (hslots : ∀ k, (s₁.layout k).slots = (s.layout k).slots) (hstables : s₁.stables = s.stables) :
    Leaves l i s s₁ := by
  refine ⟨fun info h => ?_, fun t ht => ?_⟩
  · rwa [slot?, hslots]
  · rw [Allocated, stable, hstables]
    exact ⟨ht, rfl⟩

theorem of_eq (hlayouts : s₁.layouts = s.layouts) (hstables : s₁.stables = s.stables) : Leaves l i s s₁ :=
  .of_slots (fun k => by rw [layout, hlayouts, ← layout]) hstables

theorem refl (l : LayoutId) (i : Nat) (s : Store) : Leaves l i s s := .of_eq rfl rfl

theorem trans (h : Leaves l i s s₁) (h' : Leaves l i s₁ s₂) : Leaves l i s s₂ where
  slot info hslot := h'.slot info (h.slot info hslot)
  tokens t ht := by
    obtain ⟨ht₁, hvalue₁⟩ := h.tokens t ht
    obtain ⟨ht₂, hvalue₂⟩ := h'.tokens t ht₁
    exact ⟨ht₂, hvalue₂.trans hvalue₁⟩

end Leaves

theorem Swept.leaves (h : s.Swept s₁) : Leaves l i s s₁ :=
  .of_slots (fun k => (h.layout k).slots) (by rw [h.eq])

theorem Aside.leaves (h : s.Aside s₁) : Leaves l i s s₁ := .of_eq h.layouts h.stables

theorem Rewires.leaves (h : s.Rewires s₁) : Leaves l i s s₁ := .of_slots (fun k => by rw [h.layout k]) h.stables

/-- Another token is made, or none. -/
theorem tokens_replaceStable (s : Store) (l : LayoutId) (i : Nat) (info : SlotInfo) (t : StableId) (w : Option Value)
    (u : StableId) (hu : s.Allocated (.stable u)) : (s.replaceStable l i info t w).Allocated (.stable u)
      ∧ ((s.replaceStable l i info t w).stable u).value = (s.stable u).value := by
  have hsize : (s.invalidateStable t).stables.size = s.stables.size := Array.size_modify
  have hvalue := value_invalidateStable s t u
  have hu₁ : u.index < (s.invalidateStable t).stables.size := hsize ▸ hu
  unfold replaceStable
  dsimp only
  split
  · have hadd := stable_addStable (s.invalidateStable t) info.label w u
    rw [if_neg (Nat.ne_of_lt hu₁)] at hadd
    exact ⟨Nat.lt_of_lt_of_eq (Nat.lt_succ_of_lt hu₁) (Array.size_push _).symm,
      (congrArg StableValue.value hadd).trans hvalue⟩
  · exact ⟨hu₁, hvalue⟩

theorem leaves_recordWrite (hne : ¬ (l = k ∧ i = j)) (w : Option Value) :
    Leaves l i s ((recordWrite k j w).run s).2 := by
  rw [recordWrite_run]
  cases s.slot? k j with
  | none => exact .refl l i s
  | some info =>
      dsimp only
      cases info.stable with
      | none => exact .refl l i s
      | some t =>
          dsimp only
          split
          · exact .refl l i s
          · refine ⟨fun info' h => ?_, tokens_replaceStable s k j info t w⟩
            unfold replaceStable
            dsimp only
            split <;> rw [slot?_modifySlot, if_neg hne] <;> exact h

/-! ## Telling a layout -/

/-- What is known of a slot when it has come to hold `w`: as before if it is not tracked, or if it has held the same;
    else the token is replaced by a new one, which uses up one unit of the budget, or given up. -/
inductive Retold (s s' : Store) (w : Option Value) (info : SlotInfo) : SlotInfo → Prop where
  | untracked (ht : info.stable = none) : Retold s s' w info info
  | same {t : StableId} (ht : info.stable = some t) (hw : (s.stable t).value = w) : Retold s s' w info info
  | replaced {t t' : StableId} (ht : info.stable = some t) (hw : (s.stable t).value ≠ w) (hbudget : 0 < info.budget)
      (hnew : ¬ s.Allocated (.stable t')) (hvalue : s'.Allocated (.stable t') ∧ (s'.stable t').value = w) :
      Retold s s' w info (info.retrack t')
  | givenUp {t : StableId} (ht : info.stable = some t) (hw : (s.stable t).value ≠ w) (hbudget : info.budget = 0) :
      Retold s s' w info info.untrack

/-- The layout `l` has been told that its slot `i` holds `w`. -/
def Tells (l : LayoutId) (i : Nat) (w : Option Value) (s s' : Store) : Prop :=
  ∀ info, s.slot? l i = some info → ∃ info', s'.slot? l i = some info' ∧ Retold s s' w info info'

theorem Tells.after (h : Tells l i w s₁ s₂) (hs : s.WellFormed) (hl : Leaves l i s s₁) : Tells l i w s s₂ := by
  intro info hslot
  obtain ⟨info', hslot', hretold⟩ := h info (hl.slot info hslot)
  have hvalue : ∀ t, info.stable = some t → (s₁.stable t).value = (s.stable t).value := fun t ht =>
    (hl.tokens t (hs.token (token_eq_some.2 ⟨info, hslot, ht⟩))).2
  refine ⟨info', hslot', ?_⟩
  cases hretold with
  | untracked ht => exact .untracked ht
  | same ht hw => exact .same ht (hvalue _ ht ▸ hw)
  | replaced ht hw hbudget hnew hnew' => exact .replaced ht (hvalue _ ht ▸ hw) hbudget (fun h => hnew (hl.tokens _ h).1) hnew'
  | givenUp ht hw hbudget => exact .givenUp ht (hvalue _ ht ▸ hw) hbudget

theorem Tells.before (h : Tells l i w s s₁) (hl : Leaves l i s₁ s₂) : Tells l i w s s₂ := by
  intro info hslot
  obtain ⟨info', hslot', hretold⟩ := h info hslot
  refine ⟨info', hl.slot info' hslot', ?_⟩
  cases hretold with
  | untracked ht => exact .untracked ht
  | same ht hw => exact .same ht hw
  | replaced ht hw hbudget hnew hnew' =>
      obtain ⟨halloc, hvalue⟩ := hl.tokens _ hnew'.1
      exact .replaced ht hw hbudget hnew ⟨halloc, hvalue.trans hnew'.2⟩
  | givenUp ht hw hbudget => exact .givenUp ht hw hbudget

theorem tells_recordWrite (s : Store) (l : LayoutId) (i : Nat) (w : Option Value) :
    Tells l i w s ((recordWrite l i w).run s).2 := by
  intro info hslot
  rw [recordWrite_run, hslot]
  dsimp only
  cases ht : info.stable with
  | none => exact ⟨info, hslot, .untracked ht⟩
  | some t =>
      dsimp only
      split
      · rename_i hw
        exact ⟨info, hslot, .same ht hw⟩
      · rename_i hw
        have hchanged : ∀ (s₁ : Store) (f : SlotInfo → SlotInfo), s₁.layouts = s.layouts →
            (s₁.modifySlot l i f).slot? l i = some (f info) := fun s₁ f hlayouts => by
          rw [slot?_modifySlot, if_pos ⟨rfl, rfl⟩, slot?, layout, hlayouts, ← layout, ← slot?, hslot]
          rfl
        have hsize : (s.invalidateStable t).stables.size = s.stables.size := Array.size_modify
        unfold replaceStable
        dsimp only
        split
        · rename_i hbudget
          refine ⟨_, hchanged _ _ rfl, .replaced ht hw hbudget (Nat.not_lt.2 hsize.ge) ⟨?_, ?_⟩⟩
          · exact Nat.lt_of_lt_of_eq (Nat.lt_succ_self _) (Array.size_push _).symm
          · exact congrArg StableValue.value ((stable_addStable _ _ w _).trans (if_pos rfl))
        · rename_i hbudget
          exact ⟨_, hchanged _ _ rfl, .givenUp ht hw (Nat.eq_zero_of_not_pos hbudget)⟩

/-- The slots before the slot `i`, and those after it, are emptied without it. -/
theorem leaves_emptied (s : Store) {first m : Nat} (hne : ∀ j, first ≤ j → j < first + m → ¬ (l = k ∧ i = j)) :
    Leaves l i s (s.emptied k first m) := by
  induction m generalizing s first with
  | zero => exact .refl l i s
  | succ m ih =>
      rw [emptied_succ]
      exact (leaves_recordWrite (hne first le_rfl (by omega)) none).trans
        (ih _ fun j hj hlast => hne j (by omega) (by omega))

theorem emptied_add (s : Store) (l : LayoutId) (first m m' : Nat) :
    s.emptied l first (m + m') = (s.emptied l first m).emptied l (first + m) m' := by
  induction m generalizing s first with
  | zero => rw [Nat.zero_add]; rfl
  | succ m ih => rw [Nat.succ_add, emptied_succ, emptied_succ, ih, Nat.add_assoc, Nat.add_comm 1]

/-- When the slots of a layout are emptied, the layout is told so of each. -/
theorem tells_emptied (hs : s.WellFormed) (hl : Leaves l i s s₁) {m : Nat} (hi : i < m) :
    Tells l i none s (s₁.emptied l 0 m) := by
  obtain ⟨rest, rfl⟩ := Nat.exists_eq_add_of_lt hi
  rw [Nat.add_assoc, emptied_add, Nat.zero_add, emptied_succ]
  have hbefore : Leaves l i s₁ (s₁.emptied l 0 i) := leaves_emptied s₁ fun j _ hj h => by omega
  have hafter : ∀ s₂ : Store, Leaves l i s₂ (s₂.emptied l (i + 1) rest) := fun s₂ =>
    leaves_emptied s₂ fun j hj _ h => by omega
  exact ((tells_recordWrite _ l i none).before (hafter _)).after hs (hl.trans hbefore)

/-! ## Values and activations -/

/-- No activation of `l` holds a value per context in the slot `i`. -/
def Undivided (s : Store) (l : LayoutId) (i : Nat) : Prop := ∀ a, s.layoutOf a = l → (s.content a i).isFanOut = false

/-- The slot `i` of `l` is as it was, and so is what activations of `l` hold there. No activation is new. -/
structure Passes (l : LayoutId) (i : Nat) (s s' : Store) : Prop where
  slot : ∀ info, s.slot? l i = some info → s'.slot? l i = some info
  scopes : ∀ a, s'.Live (.activation a) → s'.layoutOf a = l →
    s.Live (.activation a) ∧ s.layoutOf a = l ∧ s'.content a i = s.content a i

/-- The activation of `l` that is alive has come to hold `w` in the slot `i`, and `l` has been told so. -/
structure Sets (l : LayoutId) (i : Nat) (w : Option Value) (s s' : Store) : Prop where
  tells : Tells l i w s s'
  scopes : ∀ a, s'.Live (.activation a) → s'.layoutOf a = l → s'.content a i = .ofOption w

namespace Passes

theorem refl (l : LayoutId) (i : Nat) (s : Store) : Passes l i s s := ⟨fun _ h => h, fun _ ha hl => ⟨ha, hl, rfl⟩⟩

theorem trans (h : Passes l i s s₁) (h' : Passes l i s₁ s₂) : Passes l i s s₂ where
  slot info hslot := h'.slot info (h.slot info hslot)
  scopes a ha hl := by
    obtain ⟨ha₁, hl₁, hcontent₁⟩ := h'.scopes a ha hl
    obtain ⟨ha₀, hl₀, hcontent₀⟩ := h.scopes a ha₁ hl₁
    exact ⟨ha₀, hl₀, hcontent₁.trans hcontent₀⟩

/-- An object that is not an activation, and that refers to nothing, has been taken up. -/
theorem acquire (h : Passes l i s s₁) {r : Ref} (hrefs : s₁.refs r = []) (hr : ∀ a, r ≠ .activation a) :
    Passes l i s (s₁.acquire [r]) where
  slot := h.slot
  scopes a ha hl := by
    rcases live_of_live_acquire (fun p hp => absurd (hrefs ▸ hp) List.not_mem_nil) ha with heq | ha₁
    · exact absurd heq.symm (hr a)
    · exact h.scopes a ha₁ hl

end Passes

theorem Spares.passes (h : s.Spares s₁) (hs : s.WellFormed) : Passes l i s s₁ where
  slot info hslot := by rwa [slot?, h.slots]
  scopes a ha hl := by
    exact ⟨h.live_activation hs ha, h.layoutOf a ▸ hl, h.content a i⟩

/-- Something has happened at another slot. -/
theorem Confines.passes (h : Confines (s.layoutOf a) a j s s₁) (hne : s.layoutOf a = l → j ≠ i) (hs : s.Sound)
    (hadv : s.Advances s₁) (hsize : s₁.activations.size = s.activations.size) : Passes l i s s₁ where
  slot info hslot := (h.slots l i info (fun hl => (hne hl.symm).symm) hslot).1
  scopes b hb hl := by
    rw [h.layoutOf] at hl
    have halloc : s.Allocated (.activation b) :=
      Nat.lt_of_lt_of_eq (hb.allocated (hadv.sound hs).wellFormed) hsize
    exact ⟨hadv.leads.live hb halloc, hl, h.content b i fun hab => (hne (hab ▸ hl)).symm⟩

/-! ## Writes and removals -/

theorem size_setContent (s : Store) (a : ActivationId) (i : Nat) (c : SlotContent) :
    (s.setContent a i c).activations.size = s.activations.size := Array.size_modify

theorem size_write (s : Store) (a : ActivationId) (j : Nat) (v : Value) (nonLocal : Bool) :
    ((write a j v nonLocal).run.run s).2.activations.size = s.activations.size := by
  cases hslot : s.slot? (s.layoutOf a) j with
  | none => rw [write_run, hslot]
  | some info => rw [activations_write hslot, size_setContent]

theorem size_bindName (s : Store) (a : ActivationId) (n : Name) (v : Value) (nonLocal : Bool) :
    ((bindName a n v nonLocal).run.run s).2.activations.size = s.activations.size := by
  rw [bindName_run, size_write, (findOrAddSlot_spec s (s.layoutOf a) n).2.1]

theorem size_empty (s : Store) (a : ActivationId) (j : Nat) :
    ((empty a j).run s).2.activations.size = s.activations.size := by
  rw [empty_run]
  dsimp only
  rw [activations_recordWrite]
  split
  · rfl
  · exact size_setContent s a j _

theorem size_remove (s : Store) (a : ActivationId) (n : Name) :
    ((remove a n).run s).2.activations.size = s.activations.size := by
  rw [remove_run]
  split
  · rfl
  · split
    · rfl
    · rw [(swept_invalidateNames _ _ _).activations, activations_noteWrite, size_empty]

/-- A slot that is made comes after all others. -/
theorem passes_findOrAddSlot (hs : s.Sound) (hk : s.Allocated (.layout k)) (n : Name) :
    Passes l i s ((findOrAddSlot k n).run s).2 where
  slot info hslot := by
    rw [findOrAddSlot_run]
    split
    · exact hslot
    · obtain ⟨new, -, hwide⟩ := widens_widened hk n
      rw [slot?, ((swept_invalidateNames _ k [n]).layout l).slots, ← slot?, hwide.slot?, if_neg]
      · exact hslot
      · rintro ⟨rfl, rfl⟩
        exact Nat.lt_irrefl _ (Array.getElem?_eq_some_iff.1 hslot).1
  scopes b hb hl := by
    have hactivations := (findOrAddSlot_spec s k n).2.1
    have hadv := advances_findOrAddSlot hs hk n
    have halloc := hb.allocated (hadv.sound hs).wellFormed
    rw [Allocated, hactivations] at halloc
    rw [layoutOf_findOrAddSlot] at hl
    exact ⟨hadv.leads.live hb halloc, hl, content_congr hactivations b i⟩

section

variable (hs : s.Sound) (hf : s.Furnished) (ha : Ref.activation a ∈ s.roots)

include hs hf ha

theorem passes_write (hne : s.layoutOf a = l → j ≠ i) (hv : ∀ r ∈ v.refs, r ∈ s.roots) (nonLocal : Bool) :
    Passes l i s ((write a j v nonLocal).run.run s).2 :=
  (confines_write hs hf ha j v nonLocal).passes hne hs (advances_write hs ha j hv nonLocal) (size_write s a j v nonLocal)

theorem passes_bindName (hslot : s.slot? l i = some info) (hne : s.layoutOf a = l → s.slotOf? a n ≠ some i)
    (hv : ∀ r ∈ v.refs, r ∈ s.roots) (nonLocal : Bool) : Passes l i s ((bindName a n v nonLocal).run.run s).2 := by
  refine (confines_bindName hs hf ha n v nonLocal).passes (fun hl => ?_) hs (advances_bindName hs ha n hv nonLocal)
    (size_bindName s a n v nonLocal)
  have hindex := hne hl
  rw [slotOf?, hl] at hindex
  rw [findOrAddSlot_run, hl]
  split
  · rename_i j hj
    rintro rfl
    exact hindex hj
  -- A slot that is made comes after all others.
  · exact Nat.ne_of_gt (Array.getElem?_eq_some_iff.1 hslot).1

theorem passes_remove (hne : s.layoutOf a = l → s.slotOf? a n ≠ some i) : Passes l i s ((remove a n).run s).2 := by
  cases hindex : s.slotOf? a n with
  | none =>
      rw [remove_run, hindex]
      exact .refl l i s
  | some j =>
      refine (confines_remove hs hf ha hindex).passes (fun hl => ?_) hs (advances_remove hs ha n) (size_remove s a n)
      rintro rfl
      exact hne hl hindex

end

theorem bindName_existing (hindex : s.slotOf? a n = some i) (v : Value) (nonLocal : Bool) :
    ((bindName a n v nonLocal).run.run s).2 = ((write a i v nonLocal).run.run s).2 := by
  have hfound : (findOrAddSlot (s.layoutOf a) n).run s = (i, s) := by
    rw [findOrAddSlot_run]
    rw [slotOf?] at hindex
    rw [hindex]
  rw [bindName_run, hfound]

theorem tells_write (hs : s.WellFormed) (hslot : s.slot? (s.layoutOf a) i = some info)
    (hplain : (s.content a i).isFanOut = false) (v : Value) (nonLocal : Bool) :
    Tells (s.layoutOf a) i (some v) s ((write a i v nonLocal).run.run s).2 := by
  obtain ⟨s₁, s₂, irregular, hstored, hswept, -, hwrite⟩ := write_stages hslot v nonLocal
  have hnoted := (aside_noted s a v).1
  have hstore : Tells (s.layoutOf a) i (some v) (s.noted a v) s₁ := by
    have hlayout : (s.noted a v).layoutOf a = s.layoutOf a := by rw [layoutOf, hnoted.activation, ← layoutOf]
    have hcontent : (s.noted a v).content a i = s.content a i := by rw [content, hnoted.activation, ← content]
    have hrun := store_run (s.noted a v) a i v
    rw [hlayout, hcontent] at hrun
    rw [← hstored, hrun]
    obtain ⟨w, hw⟩ := SlotContent.eq_ofOption hplain
    rw [hw]
    cases w <;> exact (tells_recordWrite _ _ i (some v)).before (.of_eq rfl rfl)
  have hsweep : Leaves (s.layoutOf a) i s₁ s₂ := by
    rcases hswept with rfl | rfl
    · exact .refl _ i _
    · exact (swept_invalidateNames s₁ _ _).leaves
  rw [hwrite]
  exact ((hstore.before hsweep).before (aside_noteWrite s₂ info nonLocal irregular).1.leaves).after hs hnoted.leaves

theorem tells_remove (hs : s.WellFormed) (hindex : s.slotOf? a n = some i)
    (hslot : s.slot? (s.layoutOf a) i = some info) : Tells (s.layoutOf a) i none s ((remove a n).run s).2 := by
  have hempty : Tells (s.layoutOf a) i none s ((empty a i).run s).2 := by
    rw [empty_run]
    refine (tells_recordWrite _ (s.layoutOf a) i none).after hs ?_
    split
    · exact .refl _ i s
    · exact .of_eq rfl rfl
  rw [remove_run, hindex]
  dsimp only
  rw [hslot]
  dsimp only
  exact (hempty.before (aside_noteWrite _ info false _).1.leaves).before (swept_invalidateNames _ _ [n]).leaves

theorem kind_perform (s : Store) (op : Operation) (hk : s.Allocated (.layout k)) :
    ((op.perform s).layout k).kind = (s.layout k).kind := by
  have hrelinks : s.Relinks (fun _ _ => True) (op.perform s) := relinks_perform s op fun _ _ => trivial
  exact (hrelinks.layouts k hk).2

/-- What one activation alive of a layout holds, the only one does. -/
theorem Sets.of_scope (hs : s₁.Sound) (htells : Tells l i w s s₁) (ha : s₁.Live (.activation a))
    (hla : s₁.layoutOf a = l) (hk : (s₁.layout l).kind.isSingleton = true) (hcontent : s₁.content a i = .ofOption w) :
    Sets l i w s s₁ where
  tells := htells
  scopes b hb hlb := by
    obtain rfl := hs.eq_of_layoutOf ha (hla ▸ hk) (hs.current hb) (hlb.trans hla.symm)
    exact hcontent

section

variable (hs : s.Sound) (ha : Ref.activation a ∈ s.roots) (hk : (s.layout (s.layoutOf a)).kind.isSingleton = true)
  (hplain : (s.content a i).isFanOut = false)

include hs ha hk hplain

theorem sets_write (hslot : s.slot? (s.layoutOf a) i = some info) (hv : ∀ r ∈ v.refs, r ∈ s.roots) (nonLocal : Bool) :
    Sets (s.layoutOf a) i (some v) s ((write a i v nonLocal).run.run s).2 := by
  have hadv := advances_write hs ha i hv nonLocal
  have hactivations := activations_write hslot v nonLocal
  have hlayout : ((write a i v nonLocal).run.run s).2.layoutOf a = s.layoutOf a := by
    rw [layoutOf_congr hactivations, layoutOf_setContent]
  refine .of_scope (hadv.sound hs) (tells_write hs.wellFormed hslot hplain v nonLocal) (hadv.live ha) hlayout ?_ ?_
  · exact (kind_perform s (.write a i v nonLocal) (hs.wellFormed.layoutOf ha)).symm ▸ hk
  · rw [content_write (hs.wellFormed.roots _ ha) hslot hplain, if_pos ⟨rfl, rfl⟩]
    rfl

theorem sets_remove (hindex : s.slotOf? a n = some i) : Sets (s.layoutOf a) i none s ((remove a n).run s).2 := by
  obtain ⟨info, hslot, -⟩ := Layout.slotIndex?_eq_some hindex
  have hadv := advances_remove hs ha n
  have hkeeps : s.KeepsScopes ((remove a n).run s).2 := (tidies_remove s a n).claims.scopes
  refine .of_scope (hadv.sound hs) (tells_remove hs.wellFormed hindex hslot) (hadv.live ha)
    (hkeeps a (hs.wellFormed.roots _ ha)).2 ?_ ?_
  · exact (kind_perform s (.remove a n) (hs.wellFormed.layoutOf ha)).symm ▸ hk
  · rw [content_remove (hs.wellFormed.roots _ ha) hindex hplain, if_pos ⟨rfl, rfl⟩]
    rfl

end

/-! ## New scopes -/

section

variable {enclosing : Option ActivationId} {depth : Nat}

theorem leaves_claimed (s : Store) (l k : LayoutId) (i : Nat) (enclosing : Option ActivationId) (depth : Nat) :
    Leaves l i s (s.claimed k enclosing depth) := .of_slots slots_claimed rfl

theorem leaves_enter (hne : k ≠ l) (s : Store) (enclosing : Option ActivationId) (depth : Nat) :
    Leaves l i s ((enter k enclosing depth).run.run s).2 := by
  have hclaimed := leaves_claimed s l k i enclosing depth
  rw [enter_run]
  split
  · split
    · exact .of_eq rfl rfl
    · dsimp only
      split
      · exact (hclaimed.trans (leaves_emptied _ fun _ _ _ h => hne h.1.symm)).trans (swept_invalidateAll _ k).leaves
      · exact hclaimed
  · exact .of_eq rfl rfl

/-- A layout that is taken is not entered. -/
theorem enter_refused {e : Fault} (h : ((enter k enclosing depth).run.run s).1 = .error e) :
    ((enter k enclosing depth).run.run s).2 = s.takeSerial := by
  rw [enter_run] at h ⊢
  split at h
  · rename_i hk
    split at h
    · rename_i htaken
      rw [if_pos hk, if_pos htaken]
    · cases h
  · cases h

theorem newScope_refused {e : Fault} (h : ((newScope k enclosing depth).run.run s).1 = .error e) :
    Leaves l i s ((newScope k enclosing depth).run.run s).2
      ∧ ((newScope k enclosing depth).run.run s).2.activations.size = s.activations.size := by
  rcases newScope_cases s k enclosing depth with heq | ⟨e', heq⟩ | ⟨b, -, -, heq⟩ <;> rw [heq] at h ⊢
  · rw [enter_refused h]
    exact ⟨.of_eq rfl rfl, rfl⟩
  · exact ⟨.refl l i s, rfl⟩
  · have hw := rewires_linked s k (s.layoutOf b)
    rw [enter_refused h]
    exact ⟨hw.leaves.trans (.of_eq rfl rfl), hw.sizeActivations⟩

theorem leaves_newScope (hne : k ≠ l) (s : Store) (enclosing : Option ActivationId) (depth : Nat) :
    Leaves l i s ((newScope k enclosing depth).run.run s).2 := by
  rcases newScope_cases s k enclosing depth with heq | ⟨e, heq⟩ | ⟨b, -, -, heq⟩ <;> rw [heq]
  · exact leaves_enter hne s enclosing depth
  · exact .refl l i s
  · exact (rewires_linked s k (s.layoutOf b)).leaves.trans (leaves_enter hne _ enclosing depth)

/-- **Entering a layout empties its slots**: those of a layout that was never entered are empty. -/
theorem tells_enter (hs : s.WellFormed) (hl : Leaves l i s s₁) (hk : (s₁.layout l).kind.isSingleton = true)
    (hfirst : (s₁.layout l).singleton = none → ∀ t, s.token l i = some t → (s.stable t).value = none)
    (hok : ((enter l enclosing depth).run.run s₁).1 = .ok a) :
    Tells l i none s ((enter l enclosing depth).run.run s₁).2 := by
  intro info hslot
  have hi : i < (s₁.layout l).slots.size := (Array.getElem?_eq_some_iff.1 (hl.slot info hslot)).1
  have hclaimed := hl.trans (leaves_claimed s₁ l l i enclosing depth)
  rw [enter_run, if_pos hk] at hok ⊢
  split at hok
  · cases hok
  · rename_i hfree
    rw [if_neg hfree]
    dsimp only
    -- Slots are emptied only if there was an activation; without one there is nothing in them.
    split
    · exact (tells_emptied hs hclaimed hi).before (swept_invalidateAll _ l).leaves info hslot
    · rename_i hnone
      refine ⟨info, hclaimed.slot info hslot, ?_⟩
      cases ht : info.stable with
      | none => exact .untracked ht
      | some t => exact .same ht (hfirst (by simpa using hnone) t (token_eq_some.2 ⟨info, hslot, ht⟩))

theorem tells_newScope (hs : s.Sound) (hk : (s.layout l).kind.isSingleton = true)
    (hok : ((newScope l enclosing depth).run.run s).1 = .ok a) :
    Tells l i none s ((newScope l enclosing depth).run.run s).2 := by
  have hfirst := fun hnone t => hs.bindings.unclaimed l i t hnone
  rcases newScope_cases s l enclosing depth with heq | ⟨e, heq⟩ | ⟨b, -, -, heq⟩ <;> rw [heq] at hok ⊢
  · exact tells_enter hs.wellFormed (.refl l i s) hk hfirst hok
  · cases hok
  · have hw := rewires_linked s l (s.layoutOf b)
    refine tells_enter hs.wellFormed hw.leaves ?_ (fun hnone => hfirst ?_) hok
    · rwa [hw.layout]
    · rwa [hw.layout] at hnone

variable (hs : s.Sound) (hheld : ∀ r ∈ (Operation.newScope k enclosing depth).operands, r ∈ s.roots)

include hs hheld

/-- Scopes that were there before are as they were. -/
theorem scopes_newScope (hb : ((Operation.newScope k enclosing depth).perform s).Live (.activation b))
    (hlayout : ((Operation.newScope k enclosing depth).perform s).layoutOf b = l)
    (hold : s.Allocated (.activation b)) : s.Live (.activation b) ∧ s.layoutOf b = l
      ∧ ((Operation.newScope k enclosing depth).perform s).content b i = s.content b i := by
  obtain ⟨hl, he⟩ := held_optional hheld
  have hsame := (opens_perform hs hl he depth).old b hold
  rw [layoutOf, hsame] at hlayout
  exact ⟨live_of_opened hs hl he depth hb hold, hlayout, by rw [content, hsame, ← content]⟩

theorem passes_newScope (hne : k ≠ l) : Passes l i s ((Operation.newScope k enclosing depth).perform s) where
  slot info hslot := by
    have hleaves := leaves_newScope (i := i) hne s enclosing depth
    rw [Operation.perform]
    generalize (Store.newScope k enclosing depth).run.run s = result at hleaves ⊢
    rcases result with ⟨e | a, s₁⟩ <;> exact hleaves.slot info hslot
  scopes b hb hlayout := by
    obtain ⟨hl, he⟩ := held_optional hheld
    refine scopes_newScope hs hheld hb hlayout ?_
    by_contra hnew
    -- An activation that is new is of the layout that has been entered.
    have halloc := hb.allocated (progress_perform hs hheld).sound.wellFormed
    exact hne (((opens_perform hs hl he depth).new b halloc hnew).1.symm.trans hlayout)

theorem passes_refused {e : Fault} (h : ((newScope k enclosing depth).run.run s).1 = .error e) :
    Passes l i s ((Operation.newScope k enclosing depth).perform s) := by
  obtain ⟨hleaves, hsize⟩ := newScope_refused (l := l) (i := i) h
  have heq : (Operation.newScope k enclosing depth).perform s = ((newScope k enclosing depth).run.run s).2 := by
    rw [Operation.perform]
    generalize (Store.newScope k enclosing depth).run.run s = result at h ⊢
    rcases result with ⟨e | a, s₁⟩
    · rfl
    · cases h
  refine ⟨fun info hslot => heq ▸ hleaves.slot info hslot, fun b hb hlayout => ?_⟩
  refine scopes_newScope hs hheld hb hlayout ?_
  have halloc := hb.allocated (progress_perform hs hheld).sound.wellFormed
  rw [heq] at halloc
  exact Nat.lt_of_lt_of_eq halloc hsize

end

theorem sets_newScope {enclosing : Option ActivationId} {depth : Nat} (hs : s.Sound)
    (hheld : ∀ r ∈ (Operation.newScope l enclosing depth).operands, r ∈ s.roots)
    (hk : (s.layout l).kind.isSingleton = true) (hok : ((newScope l enclosing depth).run.run s).1 = .ok a) :
    Sets l i none s ((Operation.newScope l enclosing depth).perform s) := by
  have hactivates : s.Activates l a _ := .mk enclosing depth hheld hok
  obtain ⟨hroot, -, hlayout, hempty⟩ := hactivates.opened
  have htells := tells_newScope (i := i) hs hk hok
  refine .of_scope (progress_perform hs hheld).sound ?_ (live_of_mem_roots hroot) hlayout ?_ ?_
  · rw [perform_newScope hok]
    exact htells.before (.of_eq rfl rfl)
  · rwa [hactivates.kind hs]
  · rw [content, Activation.content, hempty]
    rfl

/-! ## Values for contexts -/

theorem confines_fanOutSlot (hs : s.Sound) (hf : s.Furnished) (ha : Ref.activation a ∈ s.roots) (slot : Nat)
    (contexts : List Nat) (replicate : Bool) :
    Confines (s.layoutOf a) a slot s ((fanOutSlot a slot contexts replicate).run.run s).2
      ∧ ((fanOutSlot a slot contexts replicate).run.run s).2.activations.size = s.activations.size := by
  rw [fanOutSlot_run]
  split
  · cases hslot : s.slot? (s.layoutOf a) slot with
    | none => exact ⟨.refl _ a slot s, rfl⟩
    | some info =>
        dsimp only
        split
        · exact ⟨.refl _ a slot s, rfl⟩
        · have hactivations := activations_giveUpSharing s (s.layoutOf a) slot info
          have hgive := confines_giveUpSharing hs hf hslot a
          generalize s.preparedEntries a slot info contexts replicate = entries
          rcases entries with ⟨vs, heap⟩
          dsimp only
          generalize s.giveUpSharing (s.layoutOf a) slot info = s₁ at *
          have hheap : Confines (s.layoutOf a) a slot s₁ { s₁ with heap } :=
            ⟨fun _ => rfl, rfl, fun _ _ _ => rfl, fun _ _ _ _ h => ⟨h, fun _ _ => rfl⟩, fun _ _ _ _ _ _ => rfl⟩
          refine ⟨(hgive.trans hheap).trans (confines_setContent _ ?_ _), ?_⟩
          · show a.index < s₁.activations.size
            rw [hactivations]
            exact hs.wellFormed.roots _ ha
          · rw [size_setContent]
            exact congrArg Array.size hactivations
  · exact ⟨.refl _ a slot s, rfl⟩

theorem size_writeInContext (s : Store) (a : ActivationId) (j : Nat) (v : Value) :
    ((writeInContext a j v).run.run s).2.activations.size = s.activations.size := by
  rw [writeInContext_run]
  cases hslot : s.slot? (s.layoutOf a) j with
  | none => rfl
  | some info =>
      dsimp only
      split
      · exact size_write s a j v false
      · split
        · rw [size_setContent]
          split
          · rfl
          · rw [activations_giveUpSharing]
        · rfl

theorem writeInContext_primordial (hcontext : s.contexts.current = primordial) (a : ActivationId) (j : Nat) (v : Value) :
    ((writeInContext a j v).run.run s).2 = ((write a j v false).run.run s).2 := by
  rw [writeInContext_run]
  cases hslot : s.slot? (s.layoutOf a) j with
  | none => rw [write_run, hslot]
  | some info =>
      dsimp only
      rw [if_pos hcontext]

/-- A slot that has got values for contexts is divided. -/
theorem not_undivided_setContent (ha : s.Allocated (.activation a)) (hactivations : s₁.activations = s.activations)
    (j : Nat) (vs : ContextValues) : ¬ (s₁.setContent a j (.fanOut vs)).Undivided (s.layoutOf a) j := by
  intro hwhole
  have ha₁ : s₁.Allocated (.activation a) := by
    rw [Allocated, hactivations]
    exact ha
  have hset := hwhole a ((layoutOf_setContent s₁ a a j _).trans (congrFun (layoutOf_congr hactivations) a))
  rw [content_setContent _ _ _ _ _ ha₁, if_pos ⟨rfl, rfl⟩] at hset
  cases hset

section

variable (hs : s.Sound) (hf : s.Furnished) (ha : Ref.activation a ∈ s.roots)

include hs hf ha

/-- A slot that stays undivided is not prepared for contexts. -/
theorem passes_fanOutSlot {contexts : List Nat} {replicate : Bool}
    (hwhole : ((fanOutSlot a j contexts replicate).run.run s).2.Undivided l i) :
    Passes l i s ((fanOutSlot a j contexts replicate).run.run s).2 := by
  by_cases hhere : s.layoutOf a = l ∧ j = i
  · obtain ⟨rfl, rfl⟩ := hhere
    rw [fanOutSlot_run] at hwhole ⊢
    split
    case isFalse => exact .refl _ j s
    rename_i hk
    rw [if_pos hk] at hwhole
    cases hslot : s.slot? (s.layoutOf a) j with
    | none => exact .refl _ j s
    | some info =>
        rw [hslot] at hwhole
        dsimp only at hwhole ⊢
        split
        · exact .refl _ j s
        · rename_i hcond
          rw [if_neg hcond] at hwhole
          have hactivations := activations_giveUpSharing s (s.layoutOf a) j info
          exact absurd hwhole (not_undivided_setContent (hs.wellFormed.roots _ ha) hactivations j _)
  · obtain ⟨hconfines, hsize⟩ := confines_fanOutSlot hs hf ha j contexts replicate
    exact hconfines.passes (fun hl hj => hhere ⟨hl, hj⟩) hs (advances_fanOutSlot hs ha j contexts replicate) hsize

theorem passes_fanOutAll {contexts : List Nat} {replicate : Bool}
    (hwhole : ((fanOutAll a contexts replicate).run.run s).2.Undivided l i) :
    Passes l i s ((fanOutAll a contexts replicate).run.run s).2 := by
  -- A slot that is undivided in the end was so after each of the slots before.
  have hall := fanOutAll_run (s := s) (P := fun s₁ => s₁.Sound ∧ s₁.Furnished ∧ Ref.activation a ∈ s₁.roots
    ∧ (s₁.Undivided l i → Passes l i s s₁)) a contexts replicate (fun slot s₁ ⟨hs₁, hf₁, ha₁, hpasses⟩ => ?_)
    ⟨hs, hf, ha, fun _ => .refl l i s⟩
  · exact hall.2.2.2 hwhole
  · have hadv := advances_fanOutSlot hs₁ ha₁ slot contexts replicate
    have hmarks : s₁.Marks (fun _ => True) _ := marks_fanOutSlot hf₁ a slot contexts replicate
    refine ⟨hadv.sound hs₁, hmarks.furnished hf₁, hadv.mem_roots ha₁, fun hwhole₁ => ?_⟩
    refine (hpasses fun b hl => ?_).trans (passes_fanOutSlot hs₁ hf₁ ha₁ hwhole₁)
    -- What has been divided stays so.
    by_contra hdivided
    have hdivided : s₁.isFannedOut b i = true := by simpa [isFannedOut] using hdivided
    have hl₁ := (hmarks.places b (allocated_of_isFannedOut hdivided)).2.1.trans hl
    have hstill := hmarks.fanned b i hdivided
    rw [isFannedOut, hwhole₁ b hl₁] at hstill
    exact Bool.false_ne_true hstill

/-- A write for another context than the first is refused for a slot that stays undivided. -/
theorem passes_writeInContext (hcontext : s.contexts.current ≠ primordial) (hv : ∀ r ∈ v.refs, r ∈ s.roots)
    (hwhole : ((writeInContext a j v).run.run s).2.Undivided l i) :
    Passes l i s ((writeInContext a j v).run.run s).2 := by
  by_cases hhere : s.layoutOf a = l ∧ j = i
  · obtain ⟨rfl, rfl⟩ := hhere
    rw [writeInContext_run] at hwhole ⊢
    cases hslot : s.slot? (s.layoutOf a) j with
    | none => exact .refl _ j s
    | some info =>
        rw [hslot] at hwhole
        dsimp only at hwhole ⊢
        rw [if_neg hcontext] at hwhole ⊢
        split
        · rename_i hmay
          rw [if_pos hmay] at hwhole
          refine absurd hwhole (not_undivided_setContent (hs.wellFormed.roots _ ha) ?_ j _)
          split
          · rfl
          · exact activations_giveUpSharing s (s.layoutOf a) j info
        · exact .refl _ j s
  · exact (confines_writeInContext hs hf ha j v).passes (fun hl hj => hhere ⟨hl, hj⟩) hs
      (advances_writeInContext hs ha j hv) (size_writeInContext s a j v)

end

/-- Cleaning takes nothing out of a slot that is undivided. -/
theorem passes_cleanFanOut (hs : s.Sound) (hplain : s.Undivided l i) (a : ActivationId)
    (contexts : Option (List Nat)) : Passes l i s (s.cleanFanOut a contexts) where
  slot _ h := h
  scopes b hb hl := by
    have hadv := advances_cleanFanOut hs a contexts
    have hlayout : (s.cleanFanOut a contexts).layoutOf b = s.layoutOf b :=
      activation_modifyActivation_congr s Activation.layout a b _ rfl
    have halloc : s.Allocated (.activation b) :=
      (Leads.allocated_modifyActivation s a _ _).1 (hb.allocated (hadv.sound hs).wellFormed)
    rw [hlayout] at hl
    refine ⟨hadv.leads.live hb halloc, hl, ?_⟩
    rw [content_cleanFanOut]
    split
    · obtain ⟨w, hw⟩ := SlotContent.eq_ofOption (hplain b hl)
      rw [hw]
      exact SlotContent.clean_ofOption contexts w
    · rfl

/-! ## Operations -/

/-- What an operation makes a slot hold, if it stores or removes a value there. An activation starts empty: to make
    one of the layout removes what the last one held. -/
def Operation.tells (s : Store) (l : LayoutId) (i : Nat) : Operation → Option (Option Value)
  | .define a n v | .assignNonLocal a n v =>
    if s.layoutOf a = l ∧ s.slotOf? a n = some i then some (some v) else none
  | .setActiveBinding a n g => if s.layoutOf a = l ∧ s.slotOf? a n = some i then some (some (.active g)) else none
  | .write a j v _ => if s.layoutOf a = l ∧ j = i then some (some v) else none
  | .writeInContext a j v =>
    if s.contexts.current = primordial ∧ s.layoutOf a = l ∧ j = i then some (some v) else none
  | .remove a n => if s.layoutOf a = l ∧ s.slotOf? a n = some i then some none else none
  | .newScope k enclosing depth =>
    if k = l ∧ ((Store.newScope k enclosing depth).run.run s).1.isOk then some none else none
  | _ => none

/-- A slot has come to hold something, or it has been left alone. -/
def Becomes (l : LayoutId) (i : Nat) (told : Option (Option Value)) (s s' : Store) : Prop :=
  match told with
  | none   => Passes l i s s'
  | some w => Sets l i w s s'

section

variable (hs : s.Sound) (hf : s.Furnished) (hslot : s.slot? l i = some info) (hk : (s.layout l).kind.isSingleton = true)
  (hplain : s.Undivided l i)

include hs hf hslot hk hplain

theorem becomes_write (ha : Ref.activation a ∈ s.roots) (j : Nat) (hv : ∀ r ∈ v.refs, r ∈ s.roots) (nonLocal : Bool) :
    Becomes l i (if s.layoutOf a = l ∧ j = i then some (some v) else none) s
      ((write a j v nonLocal).run.run s).2 := by
  split
  · rename_i hhere
    obtain ⟨rfl, rfl⟩ := hhere
    exact sets_write hs ha hk (hplain a rfl) hslot hv nonLocal
  · rename_i hne
    exact passes_write hs hf ha (fun hl hj => hne ⟨hl, hj⟩) hv nonLocal

theorem becomes_bindName (ha : Ref.activation a ∈ s.roots) (n : Name) (hv : ∀ r ∈ v.refs, r ∈ s.roots)
    (nonLocal : Bool) : Becomes l i (if s.layoutOf a = l ∧ s.slotOf? a n = some i then some (some v) else none) s
      ((bindName a n v nonLocal).run.run s).2 := by
  split
  · rename_i hhere
    obtain ⟨rfl, hindex⟩ := hhere
    rw [bindName_existing hindex]
    exact sets_write hs ha hk (hplain a rfl) hslot hv nonLocal
  · rename_i hne
    exact passes_bindName hs hf ha hslot (fun hl hindex => hne ⟨hl, hindex⟩) hv nonLocal

/-- **Every operation leaves a slot alone, or makes it hold something and tells the layout so**, as long as it does not
    divide the slot between contexts. -/
theorem becomes_perform {op : Operation} (hheld : ∀ r ∈ op.operands, r ∈ s.roots)
    (hwhole : (op.perform s).Undivided l i) : Becomes l i (op.tells s l i) s (op.perform s) := by
  have hwf := hs.wellFormed
  have haside : ∀ {s₁ : Store}, s.Aside s₁ → Passes l i s s₁ := fun h => ((Spares.refl s).aside h).passes hwf
  cases op with
  | newLayout label kind policy =>
      refine ((spares_newLayout s label kind policy).passes hwf).acquire ?_ (by rintro a ⟨⟩)
      rw [refs_layout]
      · exact (layout_newLayout label kind policy s).2.1
      · exact Nat.lt_of_lt_of_eq (Nat.lt_succ_self _) (Array.size_push _).symm
  | newCache n =>
      refine (((Spares.refl s).addCache n).passes hwf).acquire ?_ (by rintro a ⟨⟩)
      simp [refs, addCache, LookupCache.refs]
  | newScope k enclosing depth =>
      rw [Operation.tells]
      cases hrun : ((Store.newScope k enclosing depth).run.run s).1 with
      | error e =>
          rw [if_neg (fun h => by simp [Except.isOk, Except.toBool] at h)]
          exact passes_refused hs hheld hrun
      | ok a =>
          by_cases hkl : k = l
          · subst hkl
            rw [if_pos ⟨rfl, rfl⟩]
            exact sets_newScope hs hheld hk hrun
          · rw [if_neg (fun h => hkl h.1)]
            exact passes_newScope hs hheld hkl
  | initializeEnclosing k parent =>
      obtain ⟨hl, hp⟩ := held_optional hheld
      exact (spares_initializeEnclosing (hwf.roots _ hl) fun p hin => hwf.roots _ (hp p hin)).passes hwf
  | relink k parent =>
      obtain ⟨hl, hp⟩ := held_optional hheld
      exact (spares_relinkTo (hwf.roots _ hl) fun p hin => hwf.roots _ (hp p hin)).passes hwf
  | findOrAddSlot k n => exact passes_findOrAddSlot hs (hwf.roots _ (hheld _ List.mem_cons_self)) n
  | invalidateNames k names => exact ((Spares.refl s).invalidateNames k names).passes hwf
  | invalidateAll k => exact ((Spares.refl s).invalidateAll k).passes hwf
  | define a n v | assignNonLocal a n v =>
      simp only [Operation.operands, List.forall_mem_cons] at hheld
      exact becomes_bindName hs hf hslot hk hplain hheld.1 n hheld.2 _
  | setActiveBinding a n g =>
      exact becomes_bindName hs hf hslot hk hplain (hheld _ List.mem_cons_self) n (v := .active g)
        (by simp [Value.refs]) false
  | write a j v nonLocal =>
      simp only [Operation.operands, List.forall_mem_cons] at hheld
      exact becomes_write hs hf hslot hk hplain hheld.1 j hheld.2 nonLocal
  | remove a n =>
      rw [Operation.tells]
      split
      · rename_i hhere
        obtain ⟨rfl, hindex⟩ := hhere
        exact sets_remove hs (hheld _ List.mem_cons_self) hk (hplain a rfl) hindex
      · rename_i hne
        exact passes_remove hs hf (hheld _ List.mem_cons_self) fun hl hindex => hne ⟨hl, hindex⟩
  | markIrregular a =>
      exact ((Spares.refl s).modifyActivation (a := a) (f := fun act => { act with irregular := true })
        rfl rfl fun r hr => Or.inl hr).passes hwf
  | setEnclosing a parent =>
      obtain ⟨ha, hp⟩ := held_optional hheld
      exact (spares_setEnclosing hwf (live_of_mem_roots ha) fun p hin => live_of_mem_roots (hp p hin)).passes hwf
  | attach a inserted =>
      simp only [Operation.operands, List.forall_mem_cons] at hheld
      exact (spares_attach hwf hheld.1 hheld.2.1).passes hwf
  | detachEnclosing a => exact (spares_detachEnclosing hwf (hheld _ List.mem_cons_self)).passes hwf
  | resolve a n => exact (spares_resolve hwf (live_of_mem_roots (hheld _ List.mem_cons_self)) n).1.passes hwf
  | cachedRead c a =>
      simp only [Operation.operands, List.forall_mem_cons] at hheld
      exact (spares_cachedRead hwf (live_of_mem_roots hheld.2.1) c).passes hwf
  | registerContexts additional => exact haside ⟨rfl, rfl, rfl, rfl, rfl, rfl, rfl, rfl, rfl⟩
  | enterContext context => exact haside ⟨rfl, rfl, rfl, rfl, rfl, rfl, rfl, rfl, rfl⟩
  | leaveContext previous => exact haside ⟨rfl, rfl, rfl, rfl, rfl, rfl, rfl, rfl, rfl⟩
  | writeInContext a j v =>
      simp only [Operation.operands, List.forall_mem_cons] at hheld
      rw [Operation.perform] at hwhole ⊢
      rw [Operation.tells]
      by_cases hcontext : s.contexts.current = primordial
      · rw [writeInContext_primordial hcontext]
        simp only [hcontext, true_and]
        exact becomes_write hs hf hslot hk hplain hheld.1 j hheld.2 false
      · rw [if_neg fun h => hcontext h.1]
        exact passes_writeInContext hs hf hheld.1 hcontext hheld.2 hwhole
  | fanOutSlot a j contexts replicate => exact passes_fanOutSlot hs hf (hheld _ List.mem_cons_self) hwhole
  | fanOutAll a contexts replicate => exact passes_fanOutAll hs hf (hheld _ List.mem_cons_self) hwhole
  | cleanFanOut a contexts => exact passes_cleanFanOut hs hplain a contexts

end

end Store

end ScopeCall
