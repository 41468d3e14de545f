import ScopeCall.Proofs.Closing
import ScopeCall.Proofs.Spanning
import ScopeCall.Proofs.Waning

/-!
# `ScopeCall.Proofs.Marking` — what is noted about the contents of slots

Contents change where a slot is written, emptied, prepared for contexts or cleaned, and nowhere else. A write
notes an active binding at the layout before it stores the value, with one exception: a value stored for
another context than the first is not looked at. A conversion to a value per context gives the slot up and
lets its guard fall; no operation undoes it.

## Contents
- **Marks.** `Store.Marks`: what an operation does to contents, as far as guards take note of it.
- **Values for contexts.** Active bindings that are prepared for contexts are those that were there.
- **Contents.** Writing, emptying, converting and cleaning.
- **New scopes.** `marks_newScope`: a scope starts empty.
- **Operations.** `Operation.writesUnnoted`, and `marks_perform`.
- **Calls and closures.** `marks_newClosure`, `spans_marks`.
- **Steps.** `Store.ScopeStep`, and `ScopeRun.marks`.
- **Active bindings.** `active_bindings_noted`: the guard of a layout covers them all, but for one kind of write.
-/

namespace ScopeCall

namespace Store

variable {s s₁ s₂ : Store} {l : LayoutId} {a : ActivationId} {slot i : Nat} {v : Value}
  {free : LayoutId → Prop}

/-! ## Marks -/

/-- Activations stay, each of its layout, and as deep as it was made. -/
def KeepsPlaces (s s' : Store) : Prop := ∀ a, s.Allocated (.activation a) →
  s'.Allocated (.activation a) ∧ s'.layoutOf a = s.layoutOf a ∧ (s'.activation a).depth = (s.activation a).depth

theorem KeepsPlaces.trans (h : s.KeepsPlaces s₁) (h' : s₁.KeepsPlaces s₂) : s.KeepsPlaces s₂ := by
  intro a ha
  obtain ⟨ha₁, hlayout, hdepth⟩ := h a ha
  obtain ⟨ha₂, hlayout', hdepth'⟩ := h' a ha₁
  exact ⟨ha₂, hlayout'.trans hlayout, hdepth'.trans hdepth⟩

theorem keepsPlaces_of_eq (h : s₁.activations = s.activations) : s.KeepsPlaces s₁ := by
  intro a ha
  rw [Allocated, layoutOf, activation, h]
  exact ⟨ha, rfl, rfl⟩

theorem keepsPlaces_modifyActivation (s : Store) (a : ActivationId) {f : Activation → Activation}
    (hlayout : (f (s.activation a)).layout = (s.activation a).layout)
    (hdepth : (f (s.activation a)).depth = (s.activation a).depth) : s.KeepsPlaces (s.modifyActivation a f) :=
  fun b hb => ⟨(Leads.allocated_modifyActivation s a f _).2 hb,
    activation_modifyActivation_congr s Activation.layout a b f hlayout,
    activation_modifyActivation_congr s Activation.depth a b f hdepth⟩

/-- What an operation does to contents, as far as guards take note of it. An active binding that is stored
    is noted at its layout, unless the layout is one of `free`; a converted slot stays so, and one that is
    converted is given up. -/
structure Marks (free : LayoutId → Prop) (s s' : Store) : Prop extends s.Wanes s' where
  places : s.KeepsPlaces s'
  active : ∀ b j v, v ∈ (s'.content b j).values → v.isActive = true →
    v ∈ (s.content b j).values ∨ s'.NotesActive (s'.layoutOf b) ∨ free (s'.layoutOf b)
  fanned : ∀ b j, s.isFannedOut b j = true → s'.isFannedOut b j = true
  converted : ∀ b j, s'.isFannedOut b j = true →
    s.isFannedOut b j = true ∨ s'.Unshared (s'.layoutOf b) j

theorem content_congr (h : s₁.activations = s.activations) (b : ActivationId) (j : Nat) :
    s₁.content b j = s.content b j := by
  rw [content, activation, h, ← activation, ← content]

/-- An activation that was never made holds nothing. -/
theorem allocated_of_content (h : s.content a i ≠ .empty) : s.Allocated (.activation a) := by
  by_contra hnone
  simp only [Allocated, Nat.not_lt] at hnone
  refine h ?_
  simp [content, activation, Array.getElem?_eq_none hnone, Activation.content, default,
    instInhabitedActivation.default]

theorem allocated_of_values (h : v ∈ (s.content a i).values) : s.Allocated (.activation a) :=
  allocated_of_content (i := i) fun hempty => by simp [hempty, SlotContent.values] at h

theorem allocated_of_isFannedOut (h : s.isFannedOut a i = true) : s.Allocated (.activation a) :=
  allocated_of_content (i := i) fun hempty => by simp [isFannedOut, hempty, SlotContent.isFanOut] at h

namespace Marks

/-- Contents are as they were. -/
theorem of_contents (h : s.Wanes s₁) (hplaces : s.KeepsPlaces s₁)
    (hcontent : ∀ b j, s₁.content b j = s.content b j) : s.Marks free s₁ where
  toWanes := h
  places := hplaces
  active b j v hv _ := Or.inl (hcontent b j ▸ hv)
  fanned b j hb := by rwa [isFannedOut, hcontent]
  converted b j hb := by
    rw [isFannedOut, hcontent] at hb
    exact Or.inl hb

theorem of_activations (h : s.Wanes s₁) (hactivations : s₁.activations = s.activations) :
    s.Marks free s₁ :=
  .of_contents h (keepsPlaces_of_eq hactivations) (content_congr hactivations)

theorem refl (s : Store) : s.Marks free s := .of_activations (.refl s) rfl

theorem trans (h : s.Marks free s₁) (h' : s₁.Marks free s₂) : s.Marks free s₂ where
  toWanes := h.toWanes.trans h'.toWanes
  places := h.places.trans h'.places
  active b j v hv hactive := by
    rcases h'.active b j v hv hactive with hold | hnew
    · have hsame := (h'.places b (allocated_of_values hold)).2.1
      rw [hsame]
      rcases h.active b j v hold hactive with hold | hnoted | hfree
      · exact Or.inl hold
      · exact Or.inr (Or.inl (h'.toWanes.notesActive hnoted))
      · exact Or.inr (Or.inr hfree)
    · exact Or.inr hnew
  fanned b j hb := h'.fanned b j (h.fanned b j hb)
  converted b j hb := by
    rcases h'.converted b j hb with hold | hnew
    · have hsame := (h'.places b (allocated_of_isFannedOut hold)).2.1
      rw [hsame]
      exact (h.converted b j hold).imp_right h'.toWanes.unshared
    · exact Or.inr hnew

end Marks

/-! ## Values for contexts -/

/-- A copy for another context is active only if it is the active binding itself. -/
theorem copyForContext_active {h : Heap} (hactive : ((Heap.copyForContext v).run h).1.isActive = true) :
    ((Heap.copyForContext v).run h).1 = v := by
  have hcopy : ∀ n : Nat, ((Heap.copyTo n v).run h).1.isActive = true → ((Heap.copyTo n v).run h).1 = v := by
    intro n hactive
    cases n with
    | zero => rfl
    | succ n =>
        cases v with
        | list l => cases hactive
        | _ => rfl
  exact hcopy h.depthBound hactive

theorem replicateInto_active {w : Option Value} {h : Heap} (contexts : List Nat) {vs : ContextValues}
    (hv : some v ∈ ((replicateInto w vs contexts).run h).1.toList) (hactive : v.isActive = true) :
    some v ∈ vs.toList ∨ w = some v := by
  induction contexts generalizing vs h with
  | nil => exact Or.inl hv
  | cons context rest ih =>
      rcases ih hv with hold | hw
      · refine (ContextValues.mem_write hold).imp_right fun hcopy => ?_
        cases w with
        | none => cases hcopy
        | some w =>
            obtain rfl := Option.some.inj hcopy
            exact congrArg some (copyForContext_active hactive).symm
      · exact Or.inr hw

/-- **Preparing a slot for contexts makes no active binding** that was not there. -/
theorem fannedValues_active {c : SlotContent} {h : Heap} {contexts : List Nat} {room : Nat}
    {replicate copied : Bool} {w : Option Value} (hw : ∀ v, w = some v → v ∈ c.values)
    (hv : v ∈ (SlotContent.fanOut
      ((fannedValues c w contexts room replicate copied).run h).1).values)
    (hactive : v.isActive = true) : v ∈ c.values := by
  rw [SlotContent.mem_values_fanOut] at hv
  have hnone : ¬ some v ∈ (Array.replicate room (none : Option Value)).toList := by simp
  have hfirst : some v ∈ ((if replicate then
        if copied then replicateInto w (Array.replicate room none) (List.range room)
        else pure (Array.replicate room w)
      else pure (ContextValues.write (Array.replicate room none) primordial w) :
      StateM Heap ContextValues).run h).1.toList → v ∈ c.values := by
    intro hv
    split at hv
    · split at hv
      · exact (replicateInto_active _ hv hactive).elim (fun hin => absurd hin hnone) (hw v)
      · have hin : some v ∈ (Array.replicate room w).toList := hv
        simp only [Array.toList_replicate, List.mem_replicate] at hin
        exact hw v hin.2.symm
    · exact (ContextValues.mem_write hv).elim (fun hin => absurd hin hnone) fun hin => hw v hin.symm
  cases c with
  | empty => exact hfirst hv
  | value x => exact hfirst hv
  | fanOut vs =>
      have hgrown : some v ∈ (vs.grow room).toList → v ∈ (SlotContent.fanOut vs).values := fun hin =>
        SlotContent.mem_values_fanOut.2 (ContextValues.mem_grow hin)
      rw [fannedValues] at hv
      split at hv
      · exact (replicateInto_active _ hv hactive).elim hgrown (hw v)
      · exact hgrown hv

/-! ## Contents -/

/-- Every change of one content, with what has to have been noted before. -/
theorem marks_setContent {c : SlotContent}
    (hactive : ∀ v ∈ c.values, v.isActive = true → v ∈ (s.content a i).values
      ∨ s.NotesActive (s.layoutOf a) ∨ free (s.layoutOf a))
    (hfanned : s.isFannedOut a i = true → c.isFanOut = true)
    (hconverted : c.isFanOut = true → s.isFannedOut a i = true ∨ s.Unshared (s.layoutOf a) i) :
    s.Marks free (s.setContent a i c) := by
  have hwanes : s.Wanes (s.setContent a i c) := .of_eq rfl rfl
  have hlayoutOf := s.layoutOf_setContent a
  by_cases ha : s.Allocated (.activation a)
  · have hcontent := fun b j => s.content_setContent b i j c ha
    constructor
    case toWanes => exact hwanes
    case places => exact keepsPlaces_modifyActivation s a rfl rfl
    case active =>
      intro b j v hv hv'
      rw [hcontent] at hv
      split at hv
      · rename_i h
        obtain ⟨rfl, rfl⟩ := h
        rw [hlayoutOf]
        exact (hactive v hv hv').imp_right (Or.imp_left hwanes.notesActive)
      · exact Or.inl hv
    case fanned =>
      intro b j hb
      rw [isFannedOut, hcontent]
      split
      · rename_i h
        obtain ⟨rfl, rfl⟩ := h
        exact hfanned hb
      · exact hb
    case converted =>
      intro b j hb
      rw [isFannedOut, hcontent] at hb
      split at hb
      · rename_i h
        obtain ⟨rfl, rfl⟩ := h
        rw [hlayoutOf]
        exact (hconverted hb).imp_right hwanes.unshared
      · exact Or.inl hb
  -- An activation that was never made is not there to be changed.
  · refine .of_activations hwanes ?_
    simp only [Allocated, Nat.not_lt] at ha
    exact Array.ext_getElem? fun j => by
      simp only [setContent, modifyActivation, Array.getElem?_modify]
      split
      · rename_i hj
        rw [← hj, Array.getElem?_eq_none ha]
        rfl
      · rfl

theorem marks_recordWrite (s : Store) (l : LayoutId) (i : Nat) (v : Option Value) :
    s.Marks free ((recordWrite l i v).run s).2 :=
  .of_activations (wanes_recordWrite s l i v) (activations_recordWrite s l i v)

theorem marks_invalidateNames (s : Store) (l : LayoutId) (names : List Name) :
    s.Marks free (s.invalidateNames l names) :=
  .of_activations (swept_invalidateNames s l names).wanes (swept_invalidateNames s l names).activations

theorem marks_invalidateAll (s : Store) (l : LayoutId) : s.Marks free (s.invalidateAll l) :=
  .of_activations (swept_invalidateAll s l).wanes (swept_invalidateAll s l).activations

theorem marks_noteWrite (s : Store) (info : SlotInfo) (nonLocal irregular : Bool) :
    s.Marks free (s.noteWrite info nonLocal irregular) := by
  refine .of_activations (wanes_noteWrite s info nonLocal irregular) ?_
  unfold noteWrite
  split <;> rfl

theorem marks_findOrAddSlot (s : Store) (l : LayoutId) (n : Name) :
    s.Marks free ((findOrAddSlot l n).run s).2 := by
  refine .of_activations ?_ (findOrAddSlot_spec s l n).2.1
  rw [findOrAddSlot_run]
  cases hn : (s.layout l).slotIndex? n with
  | some i => exact .refl s
  | none => exact (wanes_widened s l hn).trans (swept_invalidateNames _ l [n]).wanes

/-- A value that is about to be stored has been noted if it is active. -/
theorem notesActive_noted (hf : s.Furnished) (hl : s.Allocated (.layout (s.layoutOf a)))
    (hv : v.isActive = true) : (s.noted a v).NotesActive ((s.noted a v).layoutOf a) := by
  unfold noted
  rw [if_pos hv]
  exact ⟨hl, fallen_invalidate (hf.layouts _ hl)⟩

theorem marks_noted (s : Store) (a : ActivationId) (v : Value) : s.Marks free (s.noted a v) := by
  unfold noted
  split
  · exact .of_activations (wanes_invalidate s _) rfl
  · exact .refl s

/-- An entry is set for one context. -/
theorem mem_values_write {vs : ContextValues} {context : Nat} {w : Option Value}
    (h : v ∈ (SlotContent.fanOut (vs.write context w)).values) :
    v ∈ (SlotContent.fanOut vs).values ∨ some v = w := by
  rw [SlotContent.mem_values_fanOut] at h ⊢
  exact ContextValues.mem_write h

theorem marks_store (hv : v.isActive = true → s.NotesActive (s.layoutOf a) ∨ free (s.layoutOf a)) :
    s.Marks free ((store a slot v).run s).2 := by
  rw [store_run]
  cases hc : s.content a slot with
  | fanOut vs =>
      refine marks_setContent (fun w hw hactive => ?_) (fun _ => rfl) fun _ => Or.inl ?_
      · rw [hc]
        refine (mem_values_write hw).imp_right fun heq => ?_
        exact hv (Option.some.inj heq ▸ hactive)
      · rw [isFannedOut, hc]
        rfl
  | _ =>
      have hrecord : s.Marks free _ := marks_recordWrite s (s.layoutOf a) slot (some v)
      have hactivations := activations_recordWrite s (s.layoutOf a) slot (some v)
      dsimp only
      generalize ((recordWrite (s.layoutOf a) slot (some v)).run s).2 = s₁ at hrecord hactivations ⊢
      have hlayoutOf := congrFun (layoutOf_congr hactivations) a
      refine hrecord.trans (marks_setContent (fun w hw hactive => Or.inr ?_) (fun hfanned => ?_)
        fun hfanned => by cases hfanned)
      · obtain rfl := List.mem_singleton.1 hw
        rw [hlayoutOf]
        exact (hv hactive).imp_left hrecord.toWanes.notesActive
      · rw [isFannedOut, content_congr hactivations, hc] at hfanned
        cases hfanned

/-- **A write notes an active binding** before it stores it. -/
theorem marks_write (hf : s.Furnished) (a : ActivationId) (slot : Nat) (v : Value) (nonLocal : Bool) :
    s.Marks free ((write a slot v nonLocal).run.run s).2 := by
  rw [write_run]
  cases hslot : s.slot? (s.layoutOf a) slot with
  | none => exact .refl s
  | some info =>
      dsimp only
      have hstored : s.Marks free ((store a slot v).run (s.noted a v)).2 :=
        (marks_noted s a v).trans (marks_store fun hactive =>
          Or.inl (notesActive_noted hf (allocated_of_slot? hslot) hactive))
      generalize (store a slot v).run (s.noted a v) = result at hstored ⊢
      rcases result with ⟨filled, s₁⟩
      dsimp only at hstored ⊢
      refine Marks.trans ?_ (marks_noteWrite _ info nonLocal _)
      split
      · exact hstored.trans (marks_invalidateNames s₁ _ _)
      · exact hstored

theorem marks_bindName (hf : s.Furnished) (a : ActivationId) (n : Name) (v : Value) (nonLocal : Bool) :
    s.Marks free ((bindName a n v nonLocal).run.run s).2 := by
  rw [bindName_run]
  have hadd : s.Marks free _ := marks_findOrAddSlot s (s.layoutOf a) n
  exact hadd.trans (marks_write (hadd.furnished hf) a _ v nonLocal)

theorem mem_values_clear {vs : ContextValues} {context : Nat}
    (h : v ∈ (SlotContent.fanOut (vs.clear context)).values) : v ∈ (SlotContent.fanOut vs).values :=
  SlotContent.mem_values_clean (some [context]) h

theorem marks_empty (s : Store) (a : ActivationId) (slot : Nat) :
    s.Marks free ((empty a slot).run s).2 := by
  rw [empty_run]
  refine Marks.trans ?_ (marks_recordWrite _ _ slot none)
  split
  · exact .refl s
  · unfold emptiedContent
    cases hc : s.content a slot with
    | fanOut vs =>
        refine marks_setContent (fun w hw _ => Or.inl ?_) (fun _ => rfl) fun _ => Or.inl ?_
        · rw [hc]
          exact mem_values_clear hw
        · rw [isFannedOut, hc]
          rfl
    | _ =>
        refine marks_setContent (fun w hw => by cases hw) (fun hfanned => ?_) fun hfanned => by cases hfanned
        rw [isFannedOut, hc] at hfanned
        cases hfanned

theorem marks_remove (s : Store) (a : ActivationId) (n : Name) : s.Marks free ((remove a n).run s).2 := by
  rw [remove_run]
  split
  · exact .refl s
  · split
    · exact .refl s
    · exact ((marks_empty s a _).trans (marks_noteWrite _ _ _ _)).trans (marks_invalidateNames _ _ _)

theorem wanes_giveUp (s : Store) (l : LayoutId) (i : Nat) : s.Wanes (s.modifySlot l i (·.giveUp)) :=
  wanes_modifySlot s l i (fun _ => rfl) fun _ _ => ⟨rfl, rfl, rfl, rfl, fun _ => rfl⟩

/-- A slot that is not tracked any more. -/
theorem wanes_dropStable {info : SlotInfo} (hslot : s.slot? l slot = some info) :
    s.Wanes (s.dropStable l slot) ∧ (s.dropStable l slot).activations = s.activations
      ∧ (s.dropStable l slot).slot? l slot = some info.giveUp := by
  have hgive := wanes_giveUp s l slot
  have hgiven : (s.modifySlot l slot (·.giveUp)).slot? l slot = some info.giveUp := by
    rw [slot?_modifySlot, if_pos ⟨rfl, rfl⟩, hslot]
    rfl
  rw [dropStable, hslot]
  dsimp only
  cases info.stable with
  | none => exact ⟨hgive, rfl, hgiven⟩
  | some t => exact ⟨hgive.trans (.of_eq rfl rfl), rfl, hgiven⟩

theorem activations_giveUpSharing (s : Store) (l : LayoutId) (slot : Nat) (info : SlotInfo) :
    (s.giveUpSharing l slot info).activations = s.activations := by
  simp only [giveUpSharing, dropStable]
  split
  · rfl
  · split <;> rfl

/-- **A slot that is given up is not shared any more.** -/
theorem marks_giveUpSharing (hf : s.Furnished) {info : SlotInfo} (hslot : s.slot? l slot = some info) :
    s.Marks free (s.giveUpSharing l slot info) ∧ (s.giveUpSharing l slot info).activations = s.activations
      ∧ (info.mayFanOut = true → (s.giveUpSharing l slot info).Unshared l slot) := by
  have hfirst := wanes_invalidate s info.notModifiedNonLocally
  have hslot₁ : (s.invalidate info.notModifiedNonLocally).slot? l slot = some info := hslot
  obtain ⟨hdrop, hactivations, hslot₂⟩ := wanes_dropStable hslot₁
  have hwanes := hfirst.trans hdrop
  have hguard : info.noFanOut.index < _ := Nat.lt_of_lt_of_le (hf.slots l slot info hslot) hwanes.size
  unfold giveUpSharing
  generalize (s.invalidate info.notModifiedNonLocally).dropStable l slot = s₁ at *
  refine ⟨.of_activations (hwanes.trans (wanes_invalidate s₁ _)) hactivations, hactivations, fun hmay => ?_⟩
  exact ⟨info.giveUp, hslot₂, fallen_invalidate hguard, rfl, hmay⟩

/-- A slot that is shared is given up, and gets entries for contexts. -/
theorem marks_convert (hf : s.Furnished) {info : SlotInfo} (hslot : s.slot? (s.layoutOf a) slot = some info)
    (hmay : info.mayFanOut = true) {vs : ContextValues} (heap : Heap)
    (hvalues : ∀ w ∈ (SlotContent.fanOut vs).values, w.isActive = true → w ∈ (s.content a slot).values
      ∨ s.NotesActive (s.layoutOf a) ∨ free (s.layoutOf a)) :
    s.Marks free (Store.setContent { s.giveUpSharing (s.layoutOf a) slot info with heap } a slot (.fanOut vs)) := by
  obtain ⟨hgive, hactivations, hunshared⟩ := marks_giveUpSharing hf hslot
  have hgiven : s.Marks free { s.giveUpSharing (s.layoutOf a) slot info with heap } :=
    hgive.trans (.of_activations (.of_eq rfl rfl) rfl)
  replace hunshared : Unshared { s.giveUpSharing (s.layoutOf a) slot info with heap } (s.layoutOf a) slot :=
    hunshared hmay
  replace hactivations : ({ s.giveUpSharing (s.layoutOf a) slot info with heap } : Store).activations
      = s.activations := hactivations
  generalize ({ s.giveUpSharing (s.layoutOf a) slot info with heap } : Store) = s₁ at *
  have hlayoutOf := congrFun (layoutOf_congr hactivations) a
  refine hgiven.trans (marks_setContent (fun w hw hactive => ?_) (fun _ => rfl) fun _ => Or.inr ?_)
  · rw [content_congr hactivations, hlayoutOf]
    exact (hvalues w hw hactive).imp_right (Or.imp_left hgiven.toWanes.notesActive)
  · rw [hlayoutOf]
    exact hunshared

/-- A write for a context sets its entry, and leaves the others as the slot has them. -/
theorem mem_values_contextEntries {w : Value} (hw : w ∈ (SlotContent.fanOut (s.contextEntries a slot v)).values) :
    w ∈ (s.content a slot).values ∨ w = v := by
  unfold contextEntries at hw
  cases hc : s.content a slot with
  | fanOut vs =>
      rw [hc] at hw
      exact (mem_values_write hw).imp_right Option.some.inj
  | empty | value _ =>
      rw [hc] at hw
      refine (mem_values_write hw).imp (fun hin => ?_) Option.some.inj
      rcases mem_values_write hin with hnone | hfirst
      · simp [SlotContent.values] at hnone
      · exact SlotContent.mem_values_readIn hfirst.symm

/-- Active bindings are written for another context than the first, where nothing looks at them. One is not the
    first of its layout if the guard has fallen before. -/
theorem marks_writeInContext (hf : s.Furnished) (a : ActivationId) (slot : Nat) (v : Value)
    (hfree : v.isActive = true → s.contexts.current ≠ primordial →
      s.guardValid (s.layout (s.layoutOf a)).noActiveBinding = true → free (s.layoutOf a)) :
    s.Marks free ((writeInContext a slot v).run.run s).2 := by
  rw [writeInContext_run]
  cases hslot : s.slot? (s.layoutOf a) slot with
  | none => exact .refl s
  | some info =>
      dsimp only
      split
      · exact marks_write hf a slot v false
      rename_i hcontext
      split
      case isFalse => exact .refl s
      rename_i hmay
      have hvalues : ∀ w ∈ (SlotContent.fanOut (s.contextEntries a slot v)).values, w.isActive = true →
          w ∈ (s.content a slot).values ∨ s.NotesActive (s.layoutOf a) ∨ free (s.layoutOf a) := by
        intro w hw hactive
        rcases mem_values_contextEntries hw with hold | rfl
        · exact Or.inl hold
        · have hl : s.Allocated (.layout (s.layoutOf a)) := allocated_of_slot? hslot
          cases hguard : s.guardValid (s.layout (s.layoutOf a)).noActiveBinding with
          | false => exact Or.inr (Or.inl ⟨hl, hf.layouts _ hl, hguard⟩)
          | true => exact Or.inr (Or.inr (hfree hactive hcontext hguard))
      cases hfanned : (s.content a slot).isFanOut with
      | true =>
          rw [if_pos rfl]
          exact marks_setContent hvalues (fun _ => rfl) fun _ => Or.inl hfanned
      | false =>
          rw [if_neg Bool.false_ne_true]
          exact marks_convert hf hslot hmay _ hvalues

theorem marks_fanOutSlot (hf : s.Furnished) (a : ActivationId) (slot : Nat) (contexts : List Nat)
    (replicate : Bool) : s.Marks free ((fanOutSlot a slot contexts replicate).run.run s).2 := by
  rw [fanOutSlot_run]
  split
  case isFalse => exact .refl s
  cases hslot : s.slot? (s.layoutOf a) slot with
  | none => exact .refl s
  | some info =>
      dsimp only
      split
      · exact .refl s
      · rename_i hcond
        have hmay : info.mayFanOut = true := by
          cases hm : info.mayFanOut with
          | true => rfl
          | false => simp [hm] at hcond
        apply marks_convert hf hslot hmay
        intro w hw hactive
        exact Or.inl (fannedValues_active (fun _ => SlotContent.mem_values_readIn) hw hactive)

theorem marks_fanOutAll (hf : s.Furnished) (a : ActivationId) (contexts : List Nat) (replicate : Bool) :
    s.Marks free ((fanOutAll a contexts replicate).run.run s).2 := by
  refine (fanOutAll_run (P := fun s₁ => s.Marks free s₁ ∧ s₁.Furnished) s a contexts replicate
    (fun slot s₁ ⟨h, hf₁⟩ => ?_) ⟨.refl s, hf⟩).1
  have hstep : s₁.Marks free _ := marks_fanOutSlot hf₁ a slot contexts replicate
  exact ⟨h.trans hstep, hstep.furnished hf₁⟩

/-- Cleaning takes values out of converted slots. -/
theorem content_cleanFanOut (s : Store) (a : ActivationId) (contexts : Option (List Nat)) (b : ActivationId)
    (j : Nat) : (s.cleanFanOut a contexts).content b j
      = if b = a then SlotContent.clean contexts (s.content b j) else s.content b j := by
  have hclean : ∀ act : Activation, ({ act with
      contents := act.contents.map (SlotContent.clean contexts) } : Activation).content j
        = SlotContent.clean contexts (act.content j) := by
    intro act
    simp only [Activation.content, Array.getElem?_map]
    cases act.contents[j]? <;> rfl
  rw [content, cleanFanOut, activation_modifyActivation]
  by_cases hb : b = a
  · subst hb
    by_cases ha : s.Allocated (.activation b)
    · rw [if_pos ⟨rfl, ha⟩, if_pos rfl, hclean, ← content]
    · rw [if_neg fun hc => ha hc.2, if_pos rfl, ← content]
      by_contra hne
      refine ha (allocated_of_content (i := j) fun hempty => hne ?_)
      rw [hempty]
      rfl
  · rw [if_neg fun hc => hb hc.1, if_neg hb, ← content]

theorem isFanOut_clean (contexts : Option (List Nat)) (c : SlotContent) :
    (SlotContent.clean contexts c).isFanOut = c.isFanOut := by
  cases c with
  | fanOut vs => cases contexts <;> rfl
  | _ => rfl

theorem marks_cleanFanOut (s : Store) (a : ActivationId) (contexts : Option (List Nat)) :
    s.Marks free (s.cleanFanOut a contexts) := by
  have hfanned : ∀ b j, (s.cleanFanOut a contexts).isFannedOut b j = s.isFannedOut b j := by
    intro b j
    rw [isFannedOut, content_cleanFanOut]
    split
    · exact isFanOut_clean contexts _
    · rfl
  refine ⟨.of_eq rfl rfl, keepsPlaces_modifyActivation s a rfl rfl, fun b j v hv _ => Or.inl ?_,
    fun b j hb => (hfanned b j).trans hb, fun b j hb => Or.inl ((hfanned b j).symm.trans hb)⟩
  rw [content_cleanFanOut] at hv
  split at hv
  · exact SlotContent.mem_values_clean contexts hv
  · exact hv

/-! ## New scopes -/

/-- Entering a layout makes one activation, which is empty, or none. -/
theorem newScope_activations (s : Store) (l : LayoutId) (enclosing : Option ActivationId) (depth : Nat) :
    ((newScope l enclosing depth).run.run s).2.activations = s.activations
      ∨ ∃ x : Activation, x.contents = #[] ∧
        ((newScope l enclosing depth).run.run s).2.activations = s.activations.push x := by
  have hfail : ∀ (s : Store) e, ((enter l enclosing depth).run.run s).1 = .error e →
      ((enter l enclosing depth).run.run s).2.activations = s.activations := by
    intro s e h
    rw [enter_run] at h ⊢
    split at h
    · split at h
      · rename_i hk htaken
        rw [if_pos hk, if_pos htaken]
        rfl
      · cases h
    · cases h
  cases hrun : (newScope l enclosing depth).run.run s with
  | mk result s₁ =>
      cases result with
      | ok a => exact Or.inr ⟨_, rfl, (newScope_ok hrun).2⟩
      | error e =>
          refine Or.inl ?_
          rw [newScope_run] at hrun
          split at hrun
          · have h := hfail s e (congrArg Prod.fst hrun)
            rwa [hrun] at h
          · have hlink := (onlyScopes_initializeEnclosing s l (enclosing.map s.layoutOf)).2
            generalize (initializeEnclosing l (enclosing.map s.layoutOf)).run.run s = linked at hrun hlink
            rcases linked with ⟨e' | _, s₂⟩
            · obtain ⟨-, rfl⟩ := Prod.mk.inj hrun
              exact hlink
            · have h := hfail s₂ e (congrArg Prod.fst hrun)
              dsimp only at hrun
              rw [hrun] at h
              exact h.trans hlink

theorem wanes_enter (s : Store) (l : LayoutId) (enclosing : Option ActivationId) (depth : Nat) :
    s.Wanes ((enter l enclosing depth).run.run s).2 := by
  have hjoined : s.Wanes (s.joined l enclosing depth) := .of_eq rfl rfl
  have hclaimed : s.Wanes (s.claimed l enclosing depth) :=
    hjoined.trans (wanes_modifyLayout _ l rfl rfl)
  rw [enter_run]
  split
  · split
    · exact .of_eq rfl rfl
    · dsimp only
      split
      · exact (hclaimed.trans (wanes_emptied _ l _ _)).trans (swept_invalidateAll _ l).wanes
      · exact hclaimed
  · exact hjoined

theorem activation_push {x : Activation} (hpush : s₁.activations = s.activations.push x) (b : ActivationId) :
    s₁.activation b = if b.index = s.activations.size then x else s.activation b := by
  rw [activation, hpush]
  exact Array.getD_push s.activations x b.index

/-- An empty activation holds what it held before it was made. -/
theorem content_push {x : Activation} (hempty : x.contents = #[]) (hpush : s₁.activations = s.activations.push x)
    (b : ActivationId) (j : Nat) : s₁.content b j = s.content b j := by
  rw [content, activation_push hpush]
  split
  · rename_i hb
    have hnone : s.activations[b.index]? = none := Array.getElem?_eq_none (Nat.le_of_eq hb.symm)
    simp [Activation.content, hempty, content, activation, hnone, default, instInhabitedActivation.default]
  · rfl

/-- There is one more activation, which is empty. -/
theorem Marks.of_push {x : Activation} (h : s.Wanes s₁) (hempty : x.contents = #[])
    (hpush : s₁.activations = s.activations.push x) : s.Marks free s₁ := by
  apply Marks.of_contents h
  · intro b hb
    have hold : s₁.activation b = s.activation b :=
      (activation_push hpush b).trans (if_neg (Nat.ne_of_lt hb))
    refine ⟨?_, congrArg Activation.layout hold, congrArg Activation.depth hold⟩
    rw [Allocated, hpush, Array.size_push]
    exact Nat.lt_succ_of_lt hb
  · exact content_push hempty hpush

theorem marks_newScope (s : Store) (l : LayoutId) (enclosing : Option ActivationId) (depth : Nat) :
    s.Marks free ((newScope l enclosing depth).run.run s).2 := by
  have hwanes : s.Wanes ((newScope l enclosing depth).run.run s).2 := by
    rw [newScope_run]
    split
    · exact wanes_enter s l enclosing depth
    · have hlink := wanes_initializeEnclosing s l (enclosing.map s.layoutOf)
      generalize (initializeEnclosing l (enclosing.map s.layoutOf)).run.run s = linked at hlink ⊢
      rcases linked with ⟨e | _, s₁⟩
      · exact hlink
      · exact hlink.trans (wanes_enter s₁ l enclosing depth)
  rcases newScope_activations s l enclosing depth with hsame | ⟨x, hempty, hpush⟩
  · exact .of_activations hwanes hsame
  · exact .of_push hwanes hempty hpush

/-! ## Operations -/

/-- A write for another context than the first stores an active binding in a scope of the layout, and none has
    been noted there. -/
def Operation.writesUnnoted (s : Store) (l : LayoutId) : Operation → Bool
  | .writeInContext a _ v => v.isActive && s.contexts.current ≠ primordial && s.layoutOf a = l
      && s.guardValid (s.layout l).noActiveBinding
  | _ => false

/-- Links of layouts and activations change, and nothing that is noted about contents. -/
theorem Rewires.marks (h : s.Rewires s₁) (hwanes : s.Wanes s₁) : s.Marks free s₁ := by
  refine .of_contents hwanes (fun a ha => ⟨(h.allocated_activation a).2 ha, h.layoutOf a, ?_⟩) fun b j => ?_
  · rw [h.activation a]
  · rw [content, h.activation b]
    rfl

theorem Notes.marks (h : s.Notes s₁) : s.Marks free s₁ := .of_activations h.wanes (by rw [h.rest])

theorem marks_setEnclosingLink (s : Store) (a : ActivationId) (parent : Option ActivationId) :
    s.Marks free (s.setEnclosingLink a parent) := (rewires_setEnclosingLink s a parent).marks (.of_eq rfl rfl)

theorem marks_rehung (s : Store) (l : LayoutId) (parent : Option LayoutId) :
    s.Marks free (s.rehung l parent) := (rewires_rehung s l parent).marks (wanes_rehung s l parent)

theorem marks_setEnclosing (s : Store) (a : ActivationId) (parent : Option ActivationId) :
    s.Marks free ((setEnclosing a parent).run.run s).2 := by
  rw [setEnclosing_run]
  split
  · exact ((marks_invalidateAll s _).trans (marks_rehung _ _ _)).trans (marks_setEnclosingLink _ a parent)
  · exact .refl s

theorem marks_attach (s : Store) (a inserted : ActivationId) :
    s.Marks free ((attach a inserted).run.run s).2 := by
  rw [attach_run]
  split
  · exact .refl s
  · rename_i old _
    dsimp only
    have hcleared : s.Marks free (s.cleared (s.layoutOf a) (s.layoutOf inserted)) :=
      (marks_invalidateAll s _).trans (marks_invalidateNames _ _ _)
    generalize s.cleared (s.layoutOf a) (s.layoutOf inserted) = s₁ at hcleared ⊢
    have hinherited : s₁.Marks free (s₁.inherited (s.layoutOf inserted) old) :=
      .of_activations (wanes_modifyLayout s₁ _ rfl rfl) rfl
    generalize s₁.inherited (s.layoutOf inserted) old = s₂ at hinherited ⊢
    have hspliced : s₂.Marks free (s₂.spliced (s.layoutOf a) (s.layoutOf inserted) old) :=
      (rewires_spliced s₂ _ _ old).marks (wanes_spliced s₂ _ _ old)
    generalize s₂.spliced (s.layoutOf a) (s.layoutOf inserted) old = s₃ at hspliced ⊢
    exact ((hcleared.trans hinherited).trans hspliced).trans
      ((marks_setEnclosingLink s₃ a _).trans (marks_setEnclosingLink _ inserted _))

theorem marks_detachEnclosing (s : Store) (a : ActivationId) :
    s.Marks free ((detachEnclosing a).run.run s).2 := by
  rw [detachEnclosing_run]
  split
  · exact .refl s
  · rename_i old _
    dsimp only
    have hswept : s.Marks free _ := marks_invalidateNames s old (s.layout old).identifiers
    generalize s.invalidateNames old (s.layout old).identifiers = s₁ at hswept ⊢
    have hbypassed : s₁.Marks free (s₁.bypassed (s.layoutOf a) old (s.parent old)) :=
      (rewires_bypassed s₁ _ old _).marks (wanes_bypassed s₁ _ old _)
    generalize s₁.bypassed (s.layoutOf a) old (s.parent old) = s₂ at hbypassed ⊢
    have hlink := (hswept.trans hbypassed).trans (marks_setEnclosingLink s₂ a none)
    split
    · exact hlink
    · exact (hlink.trans (marks_setEnclosingLink _ _ none)).trans (marks_setEnclosingLink _ a _)

/-- **Every operation keeps to the guards**, but for unnoted writes. -/
theorem marks_perform (hf : s.Furnished) (op : Operation) (hop : ∀ l, op.writesUnnoted s l = true → free l) :
    s.Marks free (op.perform s) := by
  have hsame : ∀ {s₁ : Store}, s₁.guards = s.guards → s₁.layouts = s.layouts →
      s₁.activations = s.activations → s.Marks free s₁ := fun hguards hlayouts hactivations =>
    .of_activations (.of_eq hguards hlayouts) hactivations
  cases op with
  | newLayout label kind policy =>
      exact .of_activations ((wanes_newLayout s label kind policy).trans (.of_eq rfl rfl)) rfl
  | newScope l enclosing depth =>
      have hnew : s.Marks free _ := marks_newScope s l enclosing depth
      rw [Operation.perform]
      generalize (Store.newScope l enclosing depth).run.run s = result at hnew ⊢
      rcases result with ⟨e | a, s₁⟩
      · exact hnew
      · exact hnew.trans (.of_activations (.of_eq rfl rfl) rfl)
  | initializeEnclosing l parent =>
      exact .of_activations (wanes_initializeEnclosing s l parent)
        (onlyScopes_initializeEnclosing s l parent).2
  | relink l parent =>
      rw [Operation.perform, relinkTo_run]
      exact (marks_invalidateAll s l).trans (marks_rehung _ l parent)
  | findOrAddSlot l n => exact marks_findOrAddSlot s l n
  | invalidateNames l names => exact marks_invalidateNames s l names
  | invalidateAll l => exact marks_invalidateAll s l
  | define a n v | assignNonLocal a n v => exact marks_bindName hf a n v _
  | setActiveBinding a n g => exact marks_bindName hf a n _ false
  | write a slot v nonLocal => exact marks_write hf a slot v nonLocal
  | remove a n => exact marks_remove s a n
  | markIrregular a =>
      refine .of_contents (.of_eq rfl rfl) (keepsPlaces_modifyActivation s a rfl rfl) fun b j => ?_
      exact activation_modifyActivation_congr s (·.content j) a b _ rfl
  | setEnclosing a parent => exact marks_setEnclosing s a parent
  | attach a inserted => exact marks_attach s a inserted
  | detachEnclosing a => exact marks_detachEnclosing s a
  | resolve a n => exact (Notes.resolve s a n).marks
  | cachedRead c a => exact (Notes.cachedRead s c a).marks
  | writeInContext a slot v =>
      refine marks_writeInContext hf a slot v fun hactive hcontext hguard => hop _ ?_
      simp [Operation.writesUnnoted, hactive, hcontext, hguard]
  | fanOutSlot a slot contexts replicate => exact marks_fanOutSlot hf a slot contexts replicate
  | fanOutAll a contexts replicate => exact marks_fanOutAll hf a contexts replicate
  | cleanFanOut a contexts => exact marks_cleanFanOut s a contexts
  | newCache n | registerContexts additional | enterContext context | leaveContext previous =>
      exact hsame rfl rfl rfl

/-! ## Calls and closures -/

theorem marks_slotted (s : Store) (l : LayoutId) (fs : List Formal) : s.Marks free (s.slotted l fs) := by
  induction fs generalizing s with
  | nil => exact .refl s
  | cons f fs ih => exact (marks_findOrAddSlot s l f.name).trans (ih _)

/-- Making a closure makes a layout, and stores nothing. -/
theorem marks_newClosure (s : Store) (spec : CallableSpec) (enclosing : ActivationId) (body : BodyId) :
    s.Marks free ((newClosure spec enclosing body).run.run s).2 := by
  have hlayout : s.Marks free ((newLayout (spec.label.getD CallableSpec.anonymous) .function {}).run s).2 :=
    .of_activations (wanes_newLayout s _ .function {}) rfl
  rw [newClosure_run]
  unfold enclosed
  generalize ((newLayout (spec.label.getD CallableSpec.anonymous) .function {}).run s).2 = s₁ at hlayout ⊢
  have hlink : s₁.Marks free (s₁.linked ⟨s.layouts.size⟩ (s.layoutOf enclosing)) :=
    (rewires_linked s₁ _ _).marks ((wanes_relinked s₁ _ _).trans (wanes_addChild _ _ _))
  exact ((hlayout.trans hlink).trans (marks_slotted _ _ spec.formals)).trans
    (.of_activations (.of_eq rfl rfl) rfl)

/-- The steps of a call keep to the guards. -/
theorem spans_marks (free : LayoutId → Prop) : Spans fun s s' => s.Furnished → s.Marks free s' where
  refl s _ := .refl s
  trans h h' hf := (h hf).trans (h' ((h hf).furnished hf))
  besides h _ := .of_activations (.of_eq h.guards h.layouts) h.activations
  notes h _ := h.marks
  newScope s l enclosing depth _ := marks_newScope s l enclosing depth
  findOrAddSlot s l n _ := marks_findOrAddSlot s l n
  write _ a slot v hf := marks_write hf a slot v false

/-! ## Steps -/

/-- What the rest of a program may do: scopes are left alone, and guards only fall. -/
structure Outside (s s' : Store) : Prop where
  layouts : s'.layouts = s.layouts
  activations : s'.activations = s.activations
  size : s.guards.size ≤ s'.guards.size
  fallen : ∀ g, s.Fallen g → s'.Fallen g

theorem Outside.marks (h : s.Outside s₁) : s.Marks free s₁ := by
  have hlayout : s₁.layout = s.layout := by
    unfold layout
    rw [h.layouts]
  exact .of_activations (.of_slots h.size h.fallen (by rw [h.layouts]) (fun l => by rw [hlayout])
    fun l => by rw [hlayout]) h.activations

/-- A step of a program: an operation that `fit` admits, the making of a closure, a call up to the body of
    the callee, or something else. -/
inductive ScopeStep (fit : Store → Operation → Bool) (s : Store) : Store → Prop where
  | operate (op : Operation) (h : fit s op = true) : ScopeStep fit s (op.perform s)
  | close (spec : CallableSpec) (enclosing : ActivationId) (body : BodyId) :
      ScopeStep fit s ((newClosure spec enclosing body).run.run s).2
  | call {σ : Type} (getters : Getters σ) (host : σ) (i : SiteId) (caller : ActivationId) (c : CallableId) :
      ScopeStep fit s ((Chain.execute getters i caller c).run.run ⟨s, host⟩).2.store
  | callSite {σ : Type} (getters : Getters σ) (host : σ) (i : SiteId) (caller : ActivationId) :
      ScopeStep fit s ((Chain.executeSite getters i caller).run.run ⟨s, host⟩).2.store
  | outside {s' : Store} (h : s.Outside s') : ScopeStep fit s s'

/-- Any number of steps. -/
abbrev ScopeRun (fit : Store → Operation → Bool) : Store → Store → Prop :=
  Relation.ReflTransGen (ScopeStep fit)

section Steps

variable {fit : Store → Operation → Bool}

/-- **Every step keeps to the guards**, if the operations that are admitted do. -/
theorem ScopeStep.marks (h : ScopeStep fit s s₁) (hf : s.Furnished)
    (hfree : ∀ s op l, fit s op = true → op.writesUnnoted s l = true → free l) : s.Marks free s₁ := by
  cases h with
  | operate op h => exact marks_perform hf op fun l => hfree s op l h
  | close spec enclosing body => exact marks_newClosure s spec enclosing body
  | call getters host i caller c =>
      exact Chain.within_execute (spans_marks free) getters i caller c ⟨s, host⟩ hf
  | callSite getters host i caller =>
      exact Chain.within_executeSite (spans_marks free) getters i caller ⟨s, host⟩ hf
  | outside h => exact h.marks

/-- What every step keeps to, a run keeps to. -/
theorem ScopeRun.marks (h : ScopeRun fit s s₁) (hf : s.Furnished)
    (hfree : ∀ s op l, fit s op = true → op.writesUnnoted s l = true → free l) : s.Marks free s₁ := by
  induction h with
  | refl => exact .refl s
  | tail _ hstep ih => exact ih.trans (hstep.marks (ih.furnished hf) hfree)

/-- Operations one after another are a run if each is admitted where it is performed. -/
theorem ScopeRun.of_allFit {ops : List Operation} (h : allFit fit s ops = true) :
    ScopeRun fit s (ops.foldl Operation.perform s) :=
  steps_of_allFit (fun _ op _ hfit => .operate op hfit) h

end Steps

/-! ## Active bindings -/

/-- **The guard covers every active binding.** Scopes of a layout are written, prepared for contexts, emptied
    and entered by calls in any order and from any context. If the first active binding of the layout is not
    written for another context than the first, the guard has fallen as soon as a slot of some scope holds an
    active binding, be it shared or the entry of a context. -/
theorem active_bindings_noted {names : List String} {l : LayoutId}
    (h : ScopeRun (fun s op => !op.writesUnnoted s l) (.new names) s) (a : ActivationId)
    (ha : s.layoutOf a = l) (i : Nat) (v : Value) (hv : v ∈ (s.content a i).values)
    (hactive : v.isActive = true) : s.guardValid (s.layout l).noActiveBinding = false := by
  have hmarks : (Store.new names).Marks (· ≠ l) s := by
    refine h.marks (furnished_new names) fun s op k hfit hunnoted => ?_
    rintro rfl
    rw [hunnoted] at hfit
    exact absurd hfit (by decide)
  rcases hmarks.active a i v hv hactive with hold | hnoted | hfree
  · -- A program starts with no activation.
    exact absurd (allocated_of_values hold) (Nat.not_lt_zero _)
  · exact ha ▸ hnoted.2.2
  · exact absurd ha hfree

/-- An active binding of a module is given to all contexts, and another value is written for one of them. -/
theorem noted_for_contexts :
    let ops : List Operation := [.newLayout "m" .singleton {}, .newScope ⟨0⟩ none 0,
      .setActiveBinding ⟨0⟩ ⟨2⟩ ⟨7⟩, .registerContexts 1, .fanOutSlot ⟨0⟩ 0 [1] true, .enterContext 1,
      .writeInContext ⟨0⟩ 0 (.int 3)]
    let s := ops.foldl Operation.perform (.new ["x"])
    Value.active ⟨7⟩ ∈ (s.content ⟨0⟩ 0).values ∧ s.readIn ⟨0⟩ 0 1 = some (.int 3)
      ∧ s.guardValid (s.layout ⟨0⟩).noActiveBinding = false := by
  intro ops s
  have hrun : ScopeRun (fun s op => !op.writesUnnoted s ⟨0⟩) (.new ["x"]) s :=
    ScopeRun.of_allFit (by decide +kernel)
  have hv : Value.active ⟨7⟩ ∈ (s.content ⟨0⟩ 0).values := by decide +kernel
  exact ⟨hv, by decide +kernel, active_bindings_noted hrun ⟨0⟩ (by decide +kernel) 0 _ hv rfl⟩

/-- **An active binding goes unnoted**: a program writes one for another context than the first, and the guard
    of the layout stands. -/
theorem context_write_unnoted : ¬ ∀ s, Reachable s → ∀ a, s.Live (.activation a) → ∀ i v,
    v ∈ (s.content a i).values → v.isActive = true →
    s.guardValid (s.layout (s.layoutOf a)).noActiveBinding = false := by
  intro hclaim
  let ops : List Operation := [.newLayout "m" .singleton {}, .newScope ⟨0⟩ none 0, .findOrAddSlot ⟨0⟩ ⟨2⟩,
    .registerContexts 1, .enterContext 1, .writeInContext ⟨0⟩ 0 (.active ⟨7⟩)]
  let s := ops.foldl Operation.perform (.new ["x"])
  have hreach : Reachable s := ⟨["x"], Run.of_allHeld (by decide +kernel)⟩
  have hstands : s.guardValid (s.layout (s.layoutOf ⟨0⟩)).noActiveBinding = true := by decide +kernel
  have hfallen := hclaim s hreach ⟨0⟩ (live_of_mem_roots (by decide +kernel)) 0 (.active ⟨7⟩)
    (by decide +kernel) rfl
  exact absurd (hfallen.symm.trans hstands) Bool.false_ne_true

end Store

end ScopeCall
