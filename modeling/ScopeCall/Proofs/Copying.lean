import ScopeCall.Proofs.Advancing

/-!
# `ScopeCall.Proofs.Copying` — slots that hold one value per context

Converting a slot ends its tracking for good, and may copy lists, so that each context changes a list of
its own. A copy is made of new lists only, and refers to nothing but these and what the original refers
to.

## Contents
- **Copies.** `Heap.Grows`: only lists have been added, and what they hold leads to a closed set of old
  objects or to new lists.
- **Values for contexts.** `replicateInto` and `fannedValues`.
- **Conversions.** `writeInContext`, `fanOutSlot`, `fanOutAll` and `cleanFanOut`.
-/

namespace ScopeCall

namespace Heap

/-! ## Copies -/

/-- A list made between two heaps. -/
def Made (h h' : Heap) : Ref → Prop
  | .list l => h.lists.size ≤ l.index ∧ l.index < h'.lists.size
  | _       => False

/-- `P` holds of existing lists only, and of all that these hold. -/
def Closed (P : Ref → Prop) (h : Heap) : Prop :=
  ∀ l, P (.list l) → l.index < h.lists.size ∧ ∀ v ∈ h.items l, ∀ r ∈ v.refs, P r

/-- Lists have been added that hold only what `P` admits, and each other. -/
structure Grows (P : Ref → Prop) (h h' : Heap) : Prop where
  groups : h'.groups = h.groups
  size : h.lists.size ≤ h'.lists.size
  old : ∀ l, l.index < h.lists.size → h'.items l = h.items l
  fresh : ∀ l, h.lists.size ≤ l.index → ∀ v ∈ h'.items l, ∀ r ∈ v.refs, P r ∨ h.Made h' r

variable {P : Ref → Prop} {h h' h'' : Heap}

theorem Made.mono {r : Ref} (hr : h.Made h' r) (hsize : h'.lists.size ≤ h''.lists.size) :
    h.Made h'' r := by
  cases r with
  | list l => exact ⟨hr.1, Nat.lt_of_lt_of_le hr.2 hsize⟩
  | _ => exact hr

theorem Made.since {r : Ref} (hr : h'.Made h'' r) (hsize : h.lists.size ≤ h'.lists.size) :
    h.Made h'' r := by
  cases r with
  | list l => exact ⟨Nat.le_trans hsize hr.1, hr.2⟩
  | _ => exact hr

namespace Grows

theorem refl (P : Ref → Prop) (h : Heap) : h.Grows P h where
  groups := rfl
  size := Nat.le_refl _
  old _ _ := rfl
  fresh l hl v hv := by simp [items, Array.getElem?_eq_none hl] at hv

theorem trans (g : h.Grows P h') (g' : h'.Grows P h'') : h.Grows P h'' where
  groups := g'.groups.trans g.groups
  size := Nat.le_trans g.size g'.size
  old l hl := (g'.old l (Nat.lt_of_lt_of_le hl g.size)).trans (g.old l hl)
  fresh l hl v hv r hr := by
    rcases Nat.lt_or_ge l.index h'.lists.size with hlt | hge
    · rw [g'.old l hlt] at hv
      exact (g.fresh l hl v hv r hr).imp_right (·.mono g'.size)
    · exact (g'.fresh l hge v hv r hr).imp_right (·.since g.size)

theorem closed (g : h.Grows P h') (hP : h.Closed P) : h'.Closed P := by
  intro l hl
  obtain ⟨hlt, hitems⟩ := hP l hl
  exact ⟨Nat.lt_of_lt_of_le hlt g.size, g.old l hlt ▸ hitems⟩

/-- One more list, of items that are admitted. -/
theorem newList (g : h.Grows P h') (items : Array Value)
    (hitems : ∀ v ∈ items, ∀ r ∈ v.refs, P r ∨ h.Made h' r) :
    h.Grows P { h' with lists := h'.lists.push items } where
  groups := g.groups
  size := by
    simp only [Array.size_push]
    exact Nat.le_succ_of_le g.size
  old l hl := by
    rw [← g.old l hl]
    simp only [Heap.items, Array.getElem?_push]
    rw [if_neg (Nat.ne_of_lt (Nat.lt_of_lt_of_le hl g.size))]
  fresh l hl v hv r hr := by
    have hmono : P r ∨ h.Made h' r → P r ∨ h.Made { h' with lists := h'.lists.push items } r :=
      Or.imp_right (·.mono (by simp))
    simp only [Heap.items, Array.getElem?_push] at hv
    split at hv
    · exact hmono (hitems v hv r hr)
    · exact hmono (g.fresh l hl v hv r hr)

end Grows

/-- Running `act` adds lists only, and what it answers refers to what is admitted. -/
def Yields {α : Type} (P : Ref → Prop) (act : StateM Heap α) (refs : α → Ref → Prop) : Prop :=
  ∀ h : Heap, h.Closed P → h.Grows P (act.run h).2
    ∧ ∀ r, refs (act.run h).1 r → P r ∨ h.Made (act.run h).2 r

theorem Yields.pure {α : Type} {refs : α → Ref → Prop} {a : α} (ha : ∀ r, refs a r → P r) :
    Yields P (pure a) refs :=
  fun h _ => ⟨.refl P h, fun r hr => Or.inl (ha r hr)⟩

/-- What copying yields for each value, it yields for a list of values. -/
theorem Yields.mapM {f : Value → StateM Heap Value}
    (hf : ∀ v, (∀ r ∈ v.refs, P r) → Yields P (f v) fun v r => r ∈ v.refs) {vs : List Value}
    (hvs : ∀ v ∈ vs, ∀ r ∈ v.refs, P r) :
    Yields P (vs.mapM f) fun vs r => ∃ v ∈ vs, r ∈ v.refs := by
  induction vs with
  | nil => exact .pure (by simp)
  | cons v vs ih =>
      intro h hP
      rw [List.mapM_cons]
      obtain ⟨g, hv⟩ := hf v (hvs v List.mem_cons_self) h hP
      obtain ⟨g', hrest⟩ := ih (fun w hw => hvs w (List.mem_cons_of_mem v hw)) ((f v).run h).2
        (g.closed hP)
      refine ⟨g.trans g', ?_⟩
      rintro r ⟨w, hw, hr⟩
      rcases List.mem_cons.1 hw with rfl | hw
      · exact (hv r hr).imp_right (·.mono g'.size)
      · exact (hrest r ⟨w, hw, hr⟩).imp_right (·.since g.size)

theorem yields_copyTo (n : Nat) {v : Value} (hv : ∀ r ∈ v.refs, P r) :
    Yields P (copyTo n v) fun v r => r ∈ v.refs := by
  induction n generalizing v with
  | zero => exact .pure hv
  | succ n ih =>
      cases v with
      | list l =>
          intro h hP
          have hitems := (hP l (hv _ (by simp [Value.refs]))).2
          have hmap : Yields P ((h.items l).toList.mapM (copyTo n)) fun vs r => ∃ v ∈ vs, r ∈ v.refs :=
            .mapM (fun v hv => ih hv) fun v hv => hitems v (Array.mem_toList_iff.1 hv)
          obtain ⟨g, hcopies⟩ := hmap h hP
          have hlist := g.newList (((h.items l).toList.mapM (copyTo n)).run h).1.toArray
            fun v hv r hr => hcopies r ⟨v, List.mem_toArray.1 hv, hr⟩
          refine ⟨hlist, fun r hr => Or.inr ?_⟩
          obtain rfl : r = .list ⟨(((h.items l).toList.mapM (copyTo n)).run h).2.lists.size⟩ :=
            List.mem_singleton.1 hr
          refine ⟨g.size, ?_⟩
          change _ < (Array.push _ _).size
          simp only [Array.size_push]
          exact Nat.lt_succ_self _
      | _ => exact .pure hv

theorem yields_copyForContext {v : Value} (hv : ∀ r ∈ v.refs, P r) :
    Yields P (copyForContext v) fun v r => r ∈ v.refs :=
  fun h => yields_copyTo h.depthBound hv h

end Heap

/-! ## Values for contexts -/

/-- Some context sees a value that refers to `r`. -/
def ContextValues.Holds (vs : ContextValues) (r : Ref) : Prop :=
  ∃ v, some v ∈ vs.toList ∧ r ∈ v.refs

namespace ContextValues

variable {vs : ContextValues} {r : Ref}

theorem Holds.of_grow {size : Nat} (h : (vs.grow size).Holds r) : vs.Holds r :=
  h.imp fun _ hv => hv.imp_left mem_grow

theorem Holds.of_write {context : Nat} {w : Option Value} (h : (vs.write context w).Holds r) :
    vs.Holds r ∨ ∃ v, w = some v ∧ r ∈ v.refs := by
  obtain ⟨v, hv, hr⟩ := h
  rcases mem_write hv with hv | hv
  · exact Or.inl ⟨v, hv, hr⟩
  · exact Or.inr ⟨v, hv.symm, hr⟩

theorem not_holds_replicate_none (size : Nat) (r : Ref) :
    ¬ ContextValues.Holds (Array.replicate size none) r := by
  rintro ⟨v, hv, -⟩
  simp at hv

end ContextValues

namespace Store

open Heap

section

variable {P : Ref → Prop} {v : Option Value}

theorem yields_copies (hv : ∀ w, v = some w → ∀ r ∈ w.refs, P r) :
    Yields P (v.mapM copyForContext) fun v r => ∃ w, v = some w ∧ r ∈ w.refs := by
  cases v with
  | none => exact .pure (by simp)
  | some w =>
      intro h hP
      obtain ⟨g, hcopy⟩ := yields_copyForContext (hv w rfl) h hP
      refine ⟨g, ?_⟩
      rintro r ⟨c, hc, hr⟩
      exact hcopy r (Option.some.inj hc ▸ hr)

theorem yields_replicateInto (hv : ∀ w, v = some w → ∀ r ∈ w.refs, P r) {h₀ h : Heap}
    (g : h₀.Grows P h) (hP : h₀.Closed P) {vs : ContextValues}
    (hvs : ∀ r, vs.Holds r → P r ∨ h₀.Made h r) (contexts : List Nat) :
    h₀.Grows P ((replicateInto v vs contexts).run h).2
      ∧ ∀ r, ((replicateInto v vs contexts).run h).1.Holds r →
        P r ∨ h₀.Made ((replicateInto v vs contexts).run h).2 r := by
  induction contexts generalizing vs h with
  | nil => exact ⟨g, hvs⟩
  | cons context rest ih =>
      obtain ⟨g', hcopy⟩ := yields_copies hv h (g.closed hP)
      refine ih (g.trans g') fun r hr => ?_
      rcases hr.of_write with hr | hr
      · exact (hvs r hr).imp_right (·.mono g'.size)
      · exact (hcopy r hr).imp_right (·.since g.size)

/-- The entries of a converted slot hold what the slot held, or copies of it. -/
theorem yields_fannedValues {c : SlotContent} (hc : ∀ w ∈ c.values, ∀ r ∈ w.refs, P r)
    (hv : ∀ w, v = some w → ∀ r ∈ w.refs, P r) (contexts : List Nat) (room : Nat)
    (replicate copied : Bool) :
    Yields P (fannedValues c v contexts room replicate copied) ContextValues.Holds := by
  have hempty : ∀ (vs : ContextValues) (cs : List Nat), (∀ r, vs.Holds r → P r) →
      Yields P (replicateInto v vs cs) ContextValues.Holds := fun vs cs hvs h hP =>
    yields_replicateInto hv (.refl P h) hP (fun r hr => Or.inl (hvs r hr)) cs
  have hnone : ∀ r, ContextValues.Holds (Array.replicate room none) r → P r := fun r hr =>
    absurd hr (ContextValues.not_holds_replicate_none room r)
  have hfirst : Yields P (if replicate then
        if copied then replicateInto v (Array.replicate room none) (List.range room)
        else pure (Array.replicate room v)
      else pure (ContextValues.write (Array.replicate room none) primordial v) :
      StateM Heap ContextValues) ContextValues.Holds := by
    split
    · split
      · exact hempty _ _ hnone
      · refine .pure fun r hr => ?_
        obtain ⟨w, hw, hr⟩ := hr
        rw [Array.mem_toList_iff, Array.mem_replicate] at hw
        exact hv w hw.2.symm r hr
    · refine .pure fun r hr => ?_
      rcases hr.of_write with hr | ⟨w, hw, hr⟩
      · exact hnone r hr
      · exact hv w hw r hr
  cases c with
  | empty => exact hfirst
  | value w => exact hfirst
  | fanOut vs =>
      have hvs : ∀ r, (vs.grow room).Holds r → P r := fun r hr => by
        obtain ⟨w, hw, hr⟩ := hr.of_grow
        exact hc w (SlotContent.mem_values_fanOut.2 hw) r hr
      rw [fannedValues]
      split
      · exact hempty _ _ hvs
      · exact .pure hvs

end

/-! ## Conversions -/

variable {s s₁ : Store}

/-- What is alive is closed. -/
theorem closed_live (hs : s.WellFormed) : s.heap.Closed fun r => s.Live r := by
  intro l hl
  refine ⟨hl.allocated hs, fun v hv r hr => hl.of_mem_refs ?_⟩
  exact List.mem_flatMap.2 ⟨v, Array.mem_toList_iff.2 hv, hr⟩

theorem leads_heap {h : Heap} (g : s.heap.Grows (fun r => s.Live r) h) :
    s.Leads { s with heap := h } where
  grows r hr := by
    cases r with
    | list l => exact Nat.lt_of_lt_of_le hr g.size
    | group k =>
        simp only [Allocated, g.groups] at hr ⊢
        exact hr
    | _ => exact hr
  roots r hr := Or.inl (live_of_mem_roots hr)
  refs q r hr := by
    cases q with
    | list l =>
        rcases Nat.lt_or_ge l.index s.heap.lists.size with hl | hl
        · simp only [refs, g.old l hl] at hr
          exact Or.inl hr
        · obtain ⟨v, hv, hr⟩ := List.mem_flatMap.1 hr
          refine Or.inr ((g.fresh l hl v (Array.mem_toList_iff.1 hv) r hr).imp_right fun hmade => ?_)
          cases r with
          | list k => exact ⟨Nat.not_lt.2 hmade.1, hmade.2⟩
          | _ => exact hmade.elim
    | group k =>
        simp only [refs, Heap.entries, g.groups] at hr
        exact Or.inl hr
    | _ => exact Or.inl hr
  weak l r hr := Or.inl hr

theorem within_of_made {h : Heap} {r : Ref} (hr : s.Live r ∨ s.heap.Made h r) :
    s.Within { s with heap := h } r := by
  refine hr.imp_right fun hmade => ?_
  cases r with
  | list k => exact ⟨Nat.not_lt.2 hmade.1, hmade.2⟩
  | _ => exact hmade.elim

/-- Giving up a slot ends its tracking, and keeps everything in step. -/
theorem advances_giveUpSharing (hs : s.Sound) {l : LayoutId} {slot : Nat} {info : SlotInfo}
    (hslot : s.slot? l slot = some info) : s.Advances (s.giveUpSharing l slot info)
      ∧ (s.giveUpSharing l slot info).token l slot = none
      ∧ (∀ k, ((s.giveUpSharing l slot info).layout k).slots.size = (s.layout k).slots.size)
      ∧ ∀ b, (s.giveUpSharing l slot info).activation b = s.activation b := by
  have hfirst := s.aside_invalidate info.notModifiedNonLocally
  have hs₁ := (hfirst.advances hs).sound hs
  have hre : (s.invalidate info.notModifiedNonLocally).Retracks
      ((s.invalidate info.notModifiedNonLocally).dropStable l slot) l slot none none :=
    retracks_dropStable hs₁.wellFormed hslot
  have hdrop : (s.invalidate info.notModifiedNonLocally).Advances
      ((s.invalidate info.notModifiedNonLocally).dropStable l slot) :=
    ⟨hre.onward hs₁.wellFormed (by simp), hre.tracks hs₁.wellFormed (by simp) (Or.inl rfl)
      hs₁.bindings (fun _ _ h => Or.inl h) fun _ _ _ h => absurd rfl h⟩
  rw [giveUpSharing]
  refine ⟨((hfirst.advances hs).trans hs hdrop).trans hs
    ((aside_invalidate _ _).advances (hdrop.sound hs₁)), ?_, hre.size, hre.activation⟩
  exact (hre.token l slot).trans (if_pos ⟨rfl, rfl⟩)

/-- Storing an entry per context in a slot that is not tracked, with lists made for it. -/
theorem advances_setContent_heap (hs : s.Sound) {a : ActivationId} (ha : Ref.activation a ∈ s.roots)
    {i : Nat} (hi : i < (s.layout (s.layoutOf a)).slots.size)
    (htoken : s.token (s.layoutOf a) i = none) {h : Heap}
    (g : s.heap.Grows (fun r => s.Live r) h) {vs : ContextValues}
    (hvs : ∀ r, vs.Holds r → s.Live r ∨ s.heap.Made h r) :
    s.Advances (Store.setContent { s with heap := h } a i (.fanOut vs)) := by
  have hleads : s.Leads (Store.setContent { s with heap := h } a i (.fanOut vs)) :=
    leads_setContent (leads_heap g) fun v hv r hr =>
      within_of_made (hvs r ⟨v, SlotContent.mem_values_fanOut.1 hv, hr⟩)
  refine ⟨⟨hleads, rfl, ?_⟩, tracks_stored hs.wellFormed hs.bindings (live_of_mem_roots ha) hleads
    rfl rfl rfl hi (fun _ _ _ => Or.inl not_false) fun t ht _ => ?_⟩
  · exact .of_eq rfl rfl
  · simp [htoken] at ht

/-- What the first context sees of a slot is held by the slot. -/
theorem SlotContent.mem_values_readIn {context : Nat} {c : SlotContent} {v : Value}
    (h : c.readIn context = some v) : v ∈ c.values := by
  cases c with
  | empty => simp [SlotContent.readIn] at h
  | value w => simpa [SlotContent.readIn, SlotContent.values] using h.symm
  | fanOut vs =>
      rw [SlotContent.mem_values_fanOut, Array.mem_toList_iff]
      exact Array.mem_of_getElem? (Option.join_eq_some_iff.1 h)

/-- Preparing a slot for contexts keeps everything in step. -/
theorem advances_fanOutSlot (hs : s.Sound) {a : ActivationId} (ha : Ref.activation a ∈ s.roots)
    (slot : Nat) (contexts : List Nat) (replicate : Bool) :
    s.Advances ((fanOutSlot a slot contexts replicate).run.run s).2 := by
  have hlive := live_of_mem_roots ha
  rw [fanOutSlot_run]
  split
  · cases hslot : s.slot? (s.layoutOf a) slot with
    | none => exact Advances.refl hs
    | some info =>
        dsimp only
        split
        · exact Advances.refl hs
        · obtain ⟨hgive, htoken, hsize, hactivation⟩ := advances_giveUpSharing hs hslot
          have hvalues : ∀ w ∈ (s.content a slot).values, ∀ r ∈ w.refs,
              (s.giveUpSharing (s.layoutOf a) slot info).Live r := by
            intro w hw r hr
            refine (hgive.live ha).content (i := slot) (v := w) (hgive.sound hs).wellFormed ?_ hr
            simp only [content, hactivation]
            exact hw
          have hyields := yields_fannedValues hvalues (v := (s.content a slot).readIn primordial)
            (fun w hw => hvalues w (SlotContent.mem_values_readIn hw)) contexts
            (s.contextRoom (contexts.foldl max primordial)) replicate (s.copiesSlot a slot info)
            (s.giveUpSharing (s.layoutOf a) slot info).heap
            (closed_live (hgive.sound hs).wellFormed)
          rw [heap_giveUpSharing] at hyields
          have hlayout : (s.giveUpSharing (s.layoutOf a) slot info).layoutOf a = s.layoutOf a :=
            congrArg Activation.layout (hactivation a)
          refine hgive.trans hs (advances_setContent_heap (hgive.sound hs) (hgive.mem_roots ha) ?_ ?_ ?_ ?_)
          · rw [hlayout, hsize]
            exact (Array.getElem?_eq_some_iff.1 hslot).1
          · rw [hlayout]
            exact htoken
          · rw [heap_giveUpSharing]
            exact hyields.1
          · rw [heap_giveUpSharing]
            exact hyields.2
  · exact Advances.refl hs

theorem advances_fanOutAll (hs : s.Sound) {a : ActivationId} (ha : Ref.activation a ∈ s.roots)
    (contexts : List Nat) (replicate : Bool) :
    s.Advances ((fanOutAll a contexts replicate).run.run s).2 := by
  refine fanOutAll_run s a contexts replicate (fun slot s₁ h => ?_) (Advances.refl hs)
  exact h.trans hs (advances_fanOutSlot (h.sound hs) (h.mem_roots ha) slot contexts replicate)

/-- Writing for one context keeps everything in step. -/
theorem advances_writeInContext (hs : s.Sound) {a : ActivationId} (ha : Ref.activation a ∈ s.roots)
    (slot : Nat) {v : Value} (hv : ∀ r ∈ v.refs, r ∈ s.roots) :
    s.Advances ((writeInContext a slot v).run.run s).2 := by
  have hlive := live_of_mem_roots ha
  rw [writeInContext_run]
  cases hslot : s.slot? (s.layoutOf a) slot with
  | none => exact Advances.refl hs
  | some info =>
      have hi := (Array.getElem?_eq_some_iff.1 hslot).1
      -- An entry is the new value, or comes from what the slot held.
      have hentries : ∀ r, (s.contextEntries a slot v).Holds r → r ∈ v.refs
          ∨ ∃ w ∈ (s.content a slot).values, r ∈ w.refs := by
        intro r hr
        rw [contextEntries] at hr
        dsimp only at hr
        split at hr
        · rename_i vs hc
          rcases hr.of_write with ⟨w, hw, hr⟩ | ⟨w, hw, hr⟩
          · exact Or.inr ⟨w, hc ▸ SlotContent.mem_values_fanOut.2 hw, hr⟩
          · exact Or.inl (Option.some.inj hw ▸ hr)
        · rcases hr.of_write with hr | ⟨w, hw, hr⟩
          · rcases hr.of_write with hr | ⟨w, hw, hr⟩
            · exact absurd hr (ContextValues.not_holds_replicate_none _ r)
            · exact Or.inr ⟨w, SlotContent.mem_values_readIn hw, hr⟩
          · exact Or.inl (Option.some.inj hw ▸ hr)
      dsimp only
      split
      · exact advances_write hs ha slot hv false
      · split
        · split
          · rename_i hfan
            obtain ⟨vs, hc⟩ : ∃ vs, s.content a slot = .fanOut vs := by
              cases hc : s.content a slot with
              | fanOut vs => exact ⟨vs, rfl⟩
              | empty | value => simp [hc, SlotContent.isFanOut] at hfan
            refine advances_setContent_fanOut hs ha hi (hs.bindings.token_eq_none hlive hc) ?_
            intro w hw r hr
            rcases hentries r ⟨w, hw, hr⟩ with hr | ⟨x, hx, hr⟩
            · exact live_of_mem_roots (hv r hr)
            · exact hlive.content hs.wellFormed hx hr
          · obtain ⟨hgive, htoken, hsize, hactivation⟩ := advances_giveUpSharing hs hslot
            have hlayout : (s.giveUpSharing (s.layoutOf a) slot info).layoutOf a = s.layoutOf a :=
              congrArg Activation.layout (hactivation a)
            refine hgive.trans hs (advances_setContent_fanOut (hgive.sound hs) (hgive.mem_roots ha) ?_ ?_ ?_)
            · rw [hlayout, hsize]
              exact hi
            · rw [hlayout]
              exact htoken
            · intro w hw r hr
              rcases hentries r ⟨w, hw, hr⟩ with hr | ⟨x, hx, hr⟩
              · exact hgive.live (hv r hr)
              · refine (hgive.live ha).content (i := slot) (v := x) (hgive.sound hs).wellFormed ?_ hr
                simp only [content, hactivation]
                exact hx
        · exact Advances.refl hs

/-- Dropping what contexts hold keeps everything in step. -/
theorem advances_cleanFanOut (hs : s.Sound) (a : ActivationId) (contexts : Option (List Nat)) :
    s.Advances (s.cleanFanOut a contexts) :=
  ⟨⟨s.leads_cleanFanOut a contexts, rfl, .of_eq rfl rfl⟩, tracks_cleanFanOut hs.wellFormed hs.bindings a contexts⟩

end Store

end ScopeCall
