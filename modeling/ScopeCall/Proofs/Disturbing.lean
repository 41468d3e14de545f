import ScopeCall.Proofs.Isolating
import ScopeCall.Proofs.Posting

/-!
# `ScopeCall.Proofs.Disturbing` — what the guard of a slot records

A slot has one guard that stands until the slot is written from elsewhere: from a scope nested inside, through an
activation that is reached by other means than nesting, or by being converted to a value per context. All
activations of the layout share it, those that died among them. It records just these events: it has fallen if and
only if one of them has happened.

## Contents
- **Events.** `Operation.touched` and `Store.Spreads`, and `Operation.Disturbs`.
- **Writes and removals.** They upset their slot if they come from elsewhere.
- **Conversions.** They upset the slots that get entries.
- **Operations.** `upsets_perform`: each upsets the slots that it disturbs.
- **Calls and closures.** Binding arguments upsets nothing.
- **Histories.** `Store.Past`, what is kept along one, `Past.accounted`, and `modified_iff_disturbed`.
-/

namespace ScopeCall

/-- How many contexts a content has an entry for; none before it is converted. -/
def SlotContent.entries : SlotContent → Nat
  | .fanOut vs => vs.size
  | _          => 0

theorem SlotContent.isFanOut_of_entries {c : SlotContent} (h : 0 < c.entries) : c.isFanOut = true := by
  cases c with
  | fanOut vs => rfl
  | _ => exact absurd h (Nat.lt_irrefl 0)

namespace Store

variable {s s₁ s₂ : Store} {l : LayoutId} {a b : ActivationId} {i j slot : Nat} {info : SlotInfo} {n : Name}
  {v : Value} {E : LayoutId → Nat → Prop} {op : Operation}

/-! ## Events -/

/-- The slot that an operation writes, or that it removes a binding from, with the activation through which it does
    so, and whether it does so from a scope nested inside. None if the operation fails. -/
def Operation.touched (s : Store) : Operation → Option (ActivationId × Nat × Bool)
  | .write a slot v nonLocal =>
    ((Store.write a slot v nonLocal).run.run s).1.toOption.map fun _ => (a, slot, nonLocal)
  | .writeInContext a slot v =>
    ((Store.writeInContext a slot v).run.run s).1.toOption.map fun _ => (a, slot, false)
  | .define a n v            => ((Store.define a n v).run.run s).1.toOption.map fun slot => (a, slot, false)
  | .setActiveBinding a n g  => ((Store.setActiveBinding a n g).run.run s).1.toOption.map fun slot => (a, slot, false)
  | .assignNonLocal a n v    => ((Store.assignNonLocal a n v).run.run s).1.toOption.map fun slot => (a, slot, true)
  | .remove a n              => (s.slotOf? a n).map fun slot => (a, slot, false)
  | _                        => none

/-- A scope of the layout has got entries for contexts in a slot, or more of them. -/
def Spreads (s s' : Store) (l : LayoutId) (i : Nat) : Prop :=
  ∃ a, s'.layoutOf a = l ∧ (s.content a i).entries < (s'.content a i).entries

/-- The operations on a slot that its guard records. -/
inductive Operation.Disturbs (s : Store) (op : Operation) (l : LayoutId) (i : Nat) : Prop where
  /-- The slot is written or removed from a scope nested inside, or through an activation that is reached
      irregularly. -/
  | touch {a : ActivationId} {nonLocal : Bool} (h : op.touched s = some (a, i, nonLocal)) (ha : s.layoutOf a = l)
      (helsewhere : nonLocal = true ∨ (s.activation a).irregular = true)
  /-- The slot is converted to a value per context, or extended to more contexts. -/
  | spread (h : s.Spreads (op.perform s) l i)

/-- A slot with entries has been disturbed. -/
theorem Posted.spread (hs : s₁.Posted) (h : s.Spreads s₁ l i) : s₁.Disturbed l i := by
  obtain ⟨a, rfl, hlt⟩ := h
  exact hs.fanned a i (SlotContent.isFanOut_of_entries (Nat.zero_lt_of_lt hlt))

/-- The slots that an operation upsets are those that it disturbs, if they are accounted for. -/
theorem Upsets.disturbs (h : s.Upsets E (op.perform s))
    (hE : s.Posted → ∀ l i, E l i → s.Disturbed l i ∨ op.Disturbs s l i)
    (htouch : ∀ a i nonLocal, op.touched s = some (a, i, nonLocal) →
      nonLocal = true ∨ (s.activation a).irregular = true → (op.perform s).Posted →
      (op.perform s).Disturbed (s.layoutOf a) i ∨ E (s.layoutOf a) i) :
    s.Upsets (op.Disturbs s) (op.perform s) := by
  refine h.congr hE fun hs l i hop => ?_
  cases hop with
  | touch h ha helsewhere =>
      subst ha
      exact htouch _ i _ h helsewhere hs
  | spread h => exact Or.inl (hs.spread h)

/-- An operation that writes no slot. -/
theorem Upsets.untouched (h : s.Gentle (op.perform s)) (hop : op.touched s = none) :
    s.Upsets (op.Disturbs s) (op.perform s) :=
  h.disturbs (fun _ _ _ => False.elim) fun _ _ _ htouched =>
    absurd (hop.symm.trans htouched) (Option.some_ne_none _).symm

/-! ## Writes and removals -/

theorem irregular_of_activations (h : s₁.activations = s.activations) (b : ActivationId) :
    (s₁.activation b).irregular = (s.activation b).irregular := by
  rw [activation, h, ← activation]

theorem irregular_setContent (s : Store) (a b : ActivationId) (i : Nat) (c : SlotContent) :
    ((s.setContent a i c).activation b).irregular = (s.activation b).irregular :=
  s.activation_modifyActivation_congr Activation.irregular a b _ rfl

theorem gentle_store (s : Store) (a : ActivationId) (slot : Nat) (v : Value) :
    s.Gentle ((store a slot v).run s).2 := by
  rw [store_run]
  cases hc : s.content a slot with
  | fanOut vs =>
      refine gentle_setContent fun hs _ => hs.fanned a slot ?_
      rw [isFannedOut, hc]
      rfl
  | _ => exact (gentle_recordWrite s _ slot (some v)).before (gentle_setContent fun _ h => by cases h)

/-- **A write disturbs its slot** if it is made from a nested scope, or through an irregular activation. -/
theorem upsets_write (hslot : s.slot? (s.layoutOf a) slot = some info) (v : Value) (nonLocal : Bool) :
    s.Upsets (fun l i => l = s.layoutOf a ∧ i = slot ∧ (nonLocal || (s.activation a).irregular) = true)
      ((write a slot v nonLocal).run.run s).2 := by
  have hactivations := activations_write hslot v nonLocal
  rw [write_run, hslot] at hactivations ⊢
  have hstored : s.Gentle ((store a slot v).run (s.noted a v)).2 :=
    (gentle_noted hslot v).before (gentle_store _ a slot v)
  dsimp only at hactivations ⊢
  generalize (store a slot v).run (s.noted a v) = result at hstored hactivations ⊢
  rcases result with ⟨filled, s₁⟩
  dsimp only at hstored hactivations ⊢
  have hswept : s.Gentle (if filled = true then s₁.invalidateNames (s.layoutOf a) [info.name] else s₁) := by
    split
    · exact hstored.before (gentle_invalidateNames s₁ _ _)
    · exact hstored
  generalize (if filled = true then s₁.invalidateNames (s.layoutOf a) [info.name] else s₁) = s₂ at *
  rw [activations_noteWrite] at hactivations
  -- The write is noted last, in a store where the scope is reached as before and the guard is where it was.
  have hirregular : (s₂.activation a).irregular = (s.activation a).irregular := by
    rw [irregular_of_activations hactivations, irregular_setContent]
  have hguard : s₂.post (.unmodified (s.layoutOf a) slot) = some info.notModifiedNonLocally :=
    hswept.kept _ _ _ (by rw [post, hslot]; rfl)
  rw [hirregular]
  exact hswept.before (upsets_noteWrite hguard nonLocal _)

/-- Binding a name writes the slot that it answers. -/
theorem bindName_answer (a : ActivationId) (n : Name) (v : Value) (nonLocal : Bool) :
    ((bindName a n v nonLocal).run.run s).1.toOption
      = ((write a ((findOrAddSlot (s.layoutOf a) n).run s).1 v nonLocal).run.run
          ((findOrAddSlot (s.layoutOf a) n).run s).2).1.toOption.map fun _ =>
            ((findOrAddSlot (s.layoutOf a) n).run s).1 := by
  rw [bindName, run_get_bind, run_lift_bind, run_bind]
  rcases (write a ((findOrAddSlot (s.layoutOf a) n).run s).1 v nonLocal).run.run
    ((findOrAddSlot (s.layoutOf a) n).run s).2 with ⟨e | b, s₁⟩ <;> rfl

/-- A write disturbs nothing if it is refused. -/
theorem upsets_of_write (a : ActivationId) (slot : Nat) (v : Value) (nonLocal : Bool) :
    s.Upsets (fun l i => (((write a slot v nonLocal).run.run s).1.toOption.map fun _ => slot) = some i
        ∧ l = s.layoutOf a ∧ (nonLocal || (s.activation a).irregular) = true)
      ((write a slot v nonLocal).run.run s).2 := by
  cases hslot : s.slot? (s.layoutOf a) slot with
  | none =>
      rw [write_run, hslot]
      exact (Upsets.refl s).congr (fun _ _ _ => False.elim) fun _ _ _ h => nomatch h.1
  | some info =>
      have hok : ((write a slot v nonLocal).run.run s).1.toOption = some () := by
        rw [write_run, hslot]
        rfl
      rw [hok]
      exact (upsets_write hslot v nonLocal).congr (fun _ _ _ h => Or.inr ⟨by rw [h.2.1]; rfl, h.1, h.2.2⟩)
        fun _ _ _ h => Or.inr ⟨h.2.1, (Option.some.inj h.1).symm, h.2.2⟩

theorem upsets_bindName (a : ActivationId) (n : Name) (v : Value) (nonLocal : Bool) :
    s.Upsets (fun l i => ((bindName a n v nonLocal).run.run s).1.toOption = some i ∧ l = s.layoutOf a
        ∧ (nonLocal || (s.activation a).irregular) = true) ((bindName a n v nonLocal).run.run s).2 := by
  have hadd := gentle_findOrAddSlot s (s.layoutOf a) n
  have hactivations := (findOrAddSlot_spec s (s.layoutOf a) n).2.1
  rw [bindName_run, bindName_answer]
  generalize (findOrAddSlot (s.layoutOf a) n).run s = added at hadd hactivations ⊢
  rcases added with ⟨slot, s₁⟩
  dsimp only at hadd hactivations ⊢
  have hwrite := upsets_of_write (s := s₁) a slot v nonLocal
  rw [congrFun (layoutOf_congr hactivations) a, irregular_of_activations hactivations] at hwrite
  exact hadd.before hwrite

theorem gentle_empty (s : Store) (a : ActivationId) (slot : Nat) : s.Gentle ((empty a slot).run s).2 := by
  rw [empty_run]
  refine Upsets.before ?_ (gentle_recordWrite _ _ slot none)
  split
  · exact .refl s
  · unfold emptiedContent
    cases hc : s.content a slot with
    | fanOut vs =>
        refine gentle_setContent fun hs _ => hs.fanned a slot ?_
        rw [isFannedOut, hc]
        rfl
    | _ => exact gentle_setContent fun _ h => by cases h

theorem irregular_empty (s : Store) (a b : ActivationId) (slot : Nat) :
    (((empty a slot).run s).2.activation b).irregular = (s.activation b).irregular := by
  rw [empty_run]
  dsimp only
  rw [irregular_of_activations (activations_recordWrite _ _ slot none)]
  split
  · rfl
  · exact irregular_setContent s a b slot _

/-- **A removal through an irregular activation disturbs the slot of the name**, be it empty or not. -/
theorem upsets_remove (s : Store) (a : ActivationId) (n : Name) :
    s.Upsets (fun l i => s.slotOf? a n = some i ∧ l = s.layoutOf a ∧ (false || (s.activation a).irregular) = true)
      ((remove a n).run s).2 := by
  rw [remove_run]
  cases hindex : s.slotOf? a n with
  | none => exact (Upsets.refl s).congr (fun _ _ _ => False.elim) fun _ _ _ h => nomatch h.1
  | some slot =>
      obtain ⟨info, hslot, -⟩ := Layout.slotIndex?_eq_some hindex
      have hslot : s.slot? (s.layoutOf a) slot = some info := hslot
      have hempty := gentle_empty s a slot
      have hguard := hempty.kept (s.layoutOf a) slot info.notModifiedNonLocally (by rw [post, hslot]; rfl)
      dsimp only
      rw [hslot]
      dsimp only
      rw [irregular_empty]
      refine ((hempty.before (upsets_noteWrite hguard false _)).after (gentle_invalidateNames _ _ _)).congr
        (fun _ l i h => Or.inr ?_) fun _ l i h => Or.inr ?_
      · obtain ⟨rfl, rfl, helsewhere⟩ := h
        exact ⟨rfl, rfl, helsewhere⟩
      · obtain ⟨hi, rfl, helsewhere⟩ := h
        exact ⟨rfl, (Option.some.inj hi).symm, helsewhere⟩

/-! ## Conversions -/

/-- Entries for contexts may be set, and more may be made. -/
theorem size_write_le (vs : ContextValues) (context : Nat) (w : Option Value) :
    max vs.size (context + 1) ≤ (vs.write context w).size := by
  simp [ContextValues.write, ContextValues.grow]
  omega

theorem size_replicateInto_le (w : Option Value) (contexts : List Nat) (vs : ContextValues) (h : Heap) :
    vs.size ≤ ((replicateInto w vs contexts).run h).1.size := by
  induction contexts generalizing vs h with
  | nil => exact le_rfl
  | cons context rest ih =>
      have hwrite := size_write_le vs context ((w.mapM Heap.copyForContext).run h).1
      exact ((le_max_left _ _).trans hwrite).trans (ih _ _)

/-- **Preparing a slot takes away no entry**, and makes one for each context at the first time. -/
theorem entries_fannedValues (c : SlotContent) (w : Option Value) (contexts : List Nat) (room : Nat)
    (replicate copied : Bool) (h : Heap) :
    c.entries ≤ ((fannedValues c w contexts room replicate copied).run h).1.size
      ∧ (c.isFanOut = false → room ≤ ((fannedValues c w contexts room replicate copied).run h).1.size) := by
  -- At the first time there is room for each context, whether the value is copied to them, shared by them, or kept
  -- for the first one.
  have hfirst : room ≤ ((if replicate then
        if copied then replicateInto w (Array.replicate room none) (List.range room)
        else pure (Array.replicate room w)
      else pure (ContextValues.write (Array.replicate room none) primordial w) :
      StateM Heap ContextValues).run h).1.size := by
    have hroom : ∀ x : Option Value, room = (Array.replicate room x).size := fun x => Array.size_replicate.symm
    split
    · split
      · exact (hroom none).le.trans (size_replicateInto_le w _ _ h)
      · exact (hroom w).le
    · exact (hroom none).le.trans ((le_max_left _ _).trans (size_write_le _ primordial w))
  cases c with
  | empty | value _ => exact ⟨Nat.zero_le _, fun _ => hfirst⟩
  | fanOut vs =>
      refine ⟨?_, nofun⟩
      have hgrow : vs.size ≤ (vs.grow room).size := by simp [ContextValues.grow]
      rw [fannedValues]
      split
      · exact hgrow.trans (size_replicateInto_le w _ _ h)
      · exact hgrow

/-- A change that disturbs just the slots that get entries for contexts; no entry is taken away. -/
structure FansOut (s s' : Store) : Prop where
  upsets : s.Upsets (s.Spreads s') s'
  places : s.KeepsPlaces s'
  entries : ∀ b j, (s.content b j).entries ≤ (s'.content b j).entries

theorem FansOut.refl (s : Store) : s.FansOut s :=
  ⟨(Upsets.refl s).congr (fun _ _ _ => False.elim) fun _ _ _ ⟨_, _, hlt⟩ => absurd hlt (Nat.lt_irrefl _),
    keepsPlaces_of_eq rfl, fun _ _ => le_rfl⟩

theorem FansOut.trans (h : s.FansOut s₁) (h' : s₁.FansOut s₂) : s.FansOut s₂ where
  places := h.places.trans h'.places
  entries b j := (h.entries b j).trans (h'.entries b j)
  upsets := by
    refine (h.upsets.trans h'.upsets).congr (fun _ l i hspread => Or.inr ?_) fun hs l i hspread =>
      Or.inl (hs.spread hspread)
    rcases hspread with ⟨a, hl, hlt⟩ | ⟨a, hl, hlt⟩
    · -- A scope with entries was there before, so it is still one of the same layout.
      have ha := allocated_of_isFannedOut (SlotContent.isFanOut_of_entries (Nat.zero_lt_of_lt hlt))
      exact ⟨a, (h'.places a ha).2.1.trans hl, Nat.lt_of_lt_of_le hlt (h'.entries a i)⟩
    · exact ⟨a, hl, Nat.lt_of_le_of_lt (h.entries a i) hlt⟩

/-- **A slot that gets entries is disturbed**, and no other slot is. -/
theorem fansOut_setContent (ha : s.Allocated (.activation a)) (hgentle : s.Upsets E s₁)
    (hE : ∀ l i, E l i → l = s.layoutOf a ∧ i = slot) (hactivations : s₁.activations = s.activations)
    {vs : ContextValues} (hentries : (s.content a slot).entries ≤ vs.size)
    (hfirst : s.isFannedOut a slot = false → 0 < vs.size)
    (hdisturbed : s.Posted → s₁.Disturbed (s.layoutOf a) slot) :
    s.FansOut (s₁.setContent a slot (.fanOut vs)) := by
  have hlayoutOf : ∀ b, (s₁.setContent a slot (.fanOut vs)).layoutOf b = s.layoutOf b := fun b => by
    rw [layoutOf_setContent, congrFun (layoutOf_congr hactivations) b]
  have ha₁ : s₁.Allocated (.activation a) := by rwa [Allocated, hactivations]
  have hcontent : ∀ b j, (s₁.setContent a slot (.fanOut vs)).content b j
      = if b = a ∧ j = slot then .fanOut vs else s.content b j := fun b j => by
    rw [content_setContent s₁ b slot j _ ha₁, content_congr hactivations]
  have hset : s.Upsets E (s₁.setContent a slot (.fanOut vs)) := by
    refine .of_posted hgentle.kept fun hs => hgentle.after (gentle_setContent fun _ _ => ?_)
    rw [congrFun (layoutOf_congr hactivations) a]
    exact hdisturbed hs
  refine ⟨hset.congr (fun hs l i h => ?_) fun hs l i hspread => Or.inl (hs.spread hspread),
    (keepsPlaces_of_eq hactivations).trans (keepsPlaces_modifyActivation s₁ a rfl rfl), fun b j => ?_⟩
  · obtain ⟨rfl, rfl⟩ := hE l i h
    cases hfanned : s.isFannedOut a i with
    | true => exact Or.inl (hs.fanned a i hfanned)
    | false =>
        -- Before the first conversion there are no entries, so there are more of them now.
        refine Or.inr ⟨a, hlayoutOf a, ?_⟩
        have hnone : (s.content a i).entries = 0 := by
          by_contra hne
          exact absurd (hfanned.symm.trans (SlotContent.isFanOut_of_entries (Nat.pos_of_ne_zero hne)))
            Bool.false_ne_true
        rw [hcontent, if_pos ⟨rfl, rfl⟩, hnone]
        exact hfirst hfanned
  · rw [hcontent]
    split
    · rename_i hhere
      rw [hhere.1, hhere.2]
      exact hentries
    · exact le_rfl

/-- A slot that is given up and converted. -/
theorem fansOut_convert (ha : s.Allocated (.activation a)) (hslot : s.slot? (s.layoutOf a) slot = some info)
    (heap : Heap) {vs : ContextValues} (hentries : (s.content a slot).entries ≤ vs.size)
    (hfirst : s.isFannedOut a slot = false → 0 < vs.size) :
    s.FansOut (Store.setContent { s.giveUpSharing (s.layoutOf a) slot info with heap } a slot (.fanOut vs)) := by
  have hgive : s.Upsets (fun l i => l = s.layoutOf a ∧ i = slot)
      { s.giveUpSharing (s.layoutOf a) slot info with heap } :=
    (upsets_giveUpSharing hslot).after (gentle_of_same rfl rfl rfl)
  exact fansOut_setContent ha hgive (fun _ _ h => h) (activations_giveUpSharing s _ slot info) hentries hfirst
    fun hs => (hgive.disturbed hs _ _).2 (Or.inr ⟨rfl, rfl⟩)

/-- Preparing a slot for contexts disturbs it, unless it is left as it is. -/
theorem fansOut_fanOutSlot (ha : s.Allocated (.activation a)) (slot : Nat) (contexts : List Nat) (replicate : Bool) :
    s.FansOut ((fanOutSlot a slot contexts replicate).run.run s).2 := by
  rw [fanOutSlot_run]
  split
  case isFalse => exact .refl s
  cases hslot : s.slot? (s.layoutOf a) slot with
  | none => exact .refl s
  | some info =>
      dsimp only
      split
      · exact .refl s
      · obtain ⟨hentries, hroom⟩ := entries_fannedValues (s.content a slot) ((s.content a slot).readIn primordial)
          contexts (s.contextRoom (contexts.foldl max primordial)) replicate (s.copiesSlot a slot info) s.heap
        have hpos : 0 < s.contextRoom (contexts.foldl max primordial) :=
          Nat.lt_of_lt_of_le (Nat.succ_pos _) (le_max_right _ _)
        exact fansOut_convert ha hslot _ hentries fun hfanned => Nat.lt_of_lt_of_le hpos (hroom hfanned)

theorem fansOut_fanOutAll (ha : s.Allocated (.activation a)) (contexts : List Nat) (replicate : Bool) :
    s.FansOut ((fanOutAll a contexts replicate).run.run s).2 := by
  refine (fanOutAll_run (P := fun s₁ => s.FansOut s₁ ∧ s₁.Allocated (.activation a)) s a contexts replicate
    (fun slot s₁ ⟨h, ha₁⟩ => ?_) ⟨.refl s, ha⟩).1
  have hstep := fansOut_fanOutSlot ha₁ slot contexts replicate
  exact ⟨h.trans hstep, (hstep.places a ha₁).1⟩

/-- A write for another context than the first converts its slot. -/
theorem fansOut_writeInContext (ha : s.Allocated (.activation a)) (hcontext : s.contexts.current ≠ primordial)
    (slot : Nat) (v : Value) : s.FansOut ((writeInContext a slot v).run.run s).2 := by
  rw [writeInContext_run]
  cases hslot : s.slot? (s.layoutOf a) slot with
  | none => exact .refl s
  | some info =>
      dsimp only
      rw [if_neg hcontext]
      split
      case isFalse => exact .refl s
      cases hc : s.content a slot with
      | fanOut vs =>
          rw [if_pos (c := (SlotContent.fanOut vs).isFanOut = true) rfl]
          have hfanned : s.isFannedOut a slot = true := by
            rw [isFannedOut, hc]
            rfl
          refine fansOut_setContent ha (.refl s) (fun _ _ => False.elim) rfl ?_ (fun h => ?_)
            fun hs => hs.fanned a slot hfanned
          · rw [contextEntries, hc]
            exact (le_max_left _ _).trans (size_write_le vs _ _)
          · exact absurd (h.symm.trans hfanned) Bool.false_ne_true
      | empty | value _ =>
          rw [if_neg (by simp [SlotContent.isFanOut])]
          have hpos : 0 < (s.contextEntries a slot v).size := by
            rw [contextEntries, hc]
            exact Nat.lt_of_lt_of_le (Nat.succ_pos _) ((le_max_right _ _).trans (size_write_le _ _ _))
          refine fansOut_convert ha hslot _ ?_ fun _ => hpos
          rw [hc]
          exact Nat.zero_le _

/-! ## Operations -/

/-- An operation that writes a slot or removes a binding, if it answers `x`. -/
theorem Upsets.touches {x : Option Nat} {nonLocal : Bool} (h : s.Upsets (fun l i => x = some i ∧ l = s.layoutOf a
      ∧ (nonLocal || (s.activation a).irregular) = true) (op.perform s))
    (hop : op.touched s = x.map fun i => (a, i, nonLocal)) : s.Upsets (op.Disturbs s) (op.perform s) := by
  refine h.disturbs (fun _ l i hE => Or.inr ?_) fun b i nonLocal' htouched helsewhere _ => Or.inr ?_
  · obtain ⟨rfl, rfl, helsewhere⟩ := hE
    exact .touch hop rfl (Bool.or_eq_true_iff.1 helsewhere)
  · rw [hop] at htouched
    obtain ⟨j, rfl, heq⟩ := Option.map_eq_some_iff.1 htouched
    obtain ⟨rfl, rfl, rfl⟩ : a = b ∧ j = i ∧ nonLocal = nonLocal' := by simpa using heq
    exact ⟨rfl, rfl, Bool.or_eq_true_iff.2 helsewhere⟩

/-- An operation that converts slots to a value per context. -/
theorem FansOut.disturbs (h : s.FansOut (op.perform s))
    (htouch : ∀ a i nonLocal, op.touched s = some (a, i, nonLocal) →
      nonLocal = true ∨ (s.activation a).irregular = true → (op.perform s).Posted →
      (op.perform s).Disturbed (s.layoutOf a) i) : s.Upsets (op.Disturbs s) (op.perform s) :=
  h.upsets.disturbs (fun _ _ _ hspread => Or.inr (.spread hspread)) fun a i nonLocal htouched helsewhere hs =>
    Or.inl (htouch a i nonLocal htouched helsewhere hs)

/-- A write for a context that is not refused leaves its slot converted. -/
theorem isFannedOut_writeInContext (ha : s.Allocated (.activation a)) (hcontext : s.contexts.current ≠ primordial)
    {x : Unit} (hok : ((writeInContext a slot v).run.run s).1.toOption = some x) :
    ((writeInContext a slot v).run.run s).2.isFannedOut a slot = true := by
  rw [writeInContext_run]
  rw [writeInContext, requireSlot_bind_run] at hok
  cases hslot : s.slot? (s.layoutOf a) slot with
  | none =>
      rw [hslot] at hok
      cases hok
  | some info =>
      rw [hslot] at hok
      dsimp only at hok ⊢
      rw [run_get_bind] at hok
      rw [if_neg hcontext]
      split
      · have ha' : (if (s.content a slot).isFanOut = true then s
            else s.giveUpSharing (s.layoutOf a) slot info : Store).Allocated (.activation a) := by
          split
          · exact ha
          · rwa [Allocated, activations_giveUpSharing]
        rw [isFannedOut, content_setContent _ a slot slot _ ha', if_pos ⟨rfl, rfl⟩]
        rfl
      · rename_i hmay
        simp only [hcontext, hmay, if_false, Bool.not_false, if_true] at hok
        cases hok

/-- In the first context a write is one for all contexts. -/
theorem writeInContext_eq_write (hcontext : s.contexts.current = primordial) :
    (writeInContext a slot v).run.run s = (write a slot v false).run.run s := by
  rw [writeInContext, requireSlot_bind_run]
  cases hslot : s.slot? (s.layoutOf a) slot with
  | none => rw [write_run, hslot]
  | some info =>
      dsimp only
      rw [run_get_bind]
      simp only [hcontext, if_true]

theorem gentle_cleanFanOut (s : Store) (a : ActivationId) (contexts : Option (List Nat)) :
    s.Gentle (s.cleanFanOut a contexts) := by
  refine gentle_of_eq rfl (post_of_layouts rfl) fun b j hb => ⟨?_, ?_⟩
  · rw [isFannedOut, content_cleanFanOut] at hb
    split at hb
    · rwa [isFanOut_clean] at hb
    · exact hb
  · exact activation_modifyActivation_congr s Activation.layout a b _ rfl

theorem gentle_setEnclosing (s : Store) (a : ActivationId) (parent : Option ActivationId) :
    s.Gentle ((setEnclosing a parent).run.run s).2 := by
  rw [setEnclosing_run]
  split
  · exact ((gentle_invalidateAll s _).before (gentle_rehung _ _ _)).before (gentle_setEnclosingLink _ a parent)
  · exact .refl s

theorem gentle_attach (s : Store) (a inserted : ActivationId) : s.Gentle ((attach a inserted).run.run s).2 := by
  rw [attach_run]
  split
  · exact .refl s
  · rename_i old _
    dsimp only
    have hcleared : s.Gentle (s.cleared (s.layoutOf a) (s.layoutOf inserted)) :=
      (gentle_invalidateAll s _).before (gentle_invalidateNames _ _ _)
    generalize s.cleared (s.layoutOf a) (s.layoutOf inserted) = s₁ at hcleared ⊢
    have hinherited : s₁.Gentle (s₁.inherited (s.layoutOf inserted) old) := gentle_modifyLayout s₁ _ rfl rfl rfl
    have hspliced := gentle_spliced (s₁.inherited (s.layoutOf inserted) old) (s.layoutOf a) (s.layoutOf inserted) old
    generalize (s₁.inherited (s.layoutOf inserted) old).spliced (s.layoutOf a) (s.layoutOf inserted) old = s₂
      at hspliced ⊢
    exact ((hcleared.before hinherited).before hspliced).before
      ((gentle_setEnclosingLink s₂ a _).before (gentle_setEnclosingLink _ inserted _))

theorem gentle_detachEnclosing (s : Store) (a : ActivationId) : s.Gentle ((detachEnclosing a).run.run s).2 := by
  rw [detachEnclosing_run]
  split
  · exact .refl s
  · rename_i old _
    dsimp only
    have hbypassed := (gentle_invalidateNames s old (s.layout old).identifiers).before
      (gentle_bypassed _ (s.layoutOf a) old (s.parent old))
    generalize (s.invalidateNames old (s.layout old).identifiers).bypassed (s.layoutOf a) old (s.parent old) = s₁
      at hbypassed ⊢
    have hlink := hbypassed.before (gentle_setEnclosingLink s₁ a none)
    split
    · exact hlink
    · exact (hlink.before (gentle_setEnclosingLink _ _ none)).before (gentle_setEnclosingLink _ a _)

/-- **Every operation upsets the slots that it disturbs**, and no others. -/
theorem upsets_perform (op : Operation) (hop : ∀ r ∈ op.operands, s.Allocated r) :
    s.Upsets (op.Disturbs s) (op.perform s) := by
  cases op with
  | newLayout label kind policy =>
      exact .untouched ((gentle_newLayout s label kind policy).before (gentle_of_same rfl rfl rfl)) rfl
  | newScope l enclosing depth =>
      refine .untouched ?_ rfl
      have hnew := gentle_newScope s l enclosing depth
      rw [Operation.perform]
      generalize (Store.newScope l enclosing depth).run.run s = result at hnew ⊢
      rcases result with ⟨e | a, s₁⟩
      · exact hnew
      · exact hnew.before (gentle_of_same rfl rfl rfl)
  | initializeEnclosing l parent => exact .untouched (gentle_initializeEnclosing s l parent) rfl
  | relink l parent =>
      refine .untouched ?_ rfl
      rw [Operation.perform, relinkTo_run]
      exact (gentle_invalidateAll s l).before (gentle_rehung _ l parent)
  | findOrAddSlot l n => exact .untouched (gentle_findOrAddSlot s l n) rfl
  | invalidateNames l names => exact .untouched (gentle_invalidateNames s l names) rfl
  | invalidateAll l => exact .untouched (gentle_invalidateAll s l) rfl
  | define a n v | assignNonLocal a n v => exact (upsets_bindName a n v _).touches rfl
  | setActiveBinding a n g => exact (upsets_bindName a n _ false).touches rfl
  | write a slot v nonLocal => exact (upsets_of_write a slot v nonLocal).touches (by rw [Option.map_map]; rfl)
  | remove a n => exact (upsets_remove s a n).touches rfl
  | markIrregular a => exact .untouched (gentle_modifyActivation s a rfl fun _ => rfl) rfl
  | setEnclosing a parent => exact .untouched (gentle_setEnclosing s a parent) rfl
  | attach a inserted => exact .untouched (gentle_attach s a inserted) rfl
  | detachEnclosing a => exact .untouched (gentle_detachEnclosing s a) rfl
  | resolve a n => exact .untouched (Notes.resolve s a n).gentle rfl
  | cachedRead c a => exact .untouched (Notes.cachedRead s c a).gentle rfl
  | writeInContext a slot v =>
      by_cases hcontext : s.contexts.current = primordial
      · have hwrite := upsets_of_write (s := s) a slot v false
        rw [← writeInContext_eq_write hcontext] at hwrite
        exact hwrite.touches (by rw [Option.map_map]; rfl)
      · -- The slot is left converted, so it is disturbed even if the scope had an entry for the context.
        have ha := hop (.activation a) List.mem_cons_self
        have hfans := fansOut_writeInContext ha hcontext slot v
        refine hfans.disturbs fun b i nonLocal htouched _ hs => ?_
        obtain ⟨x, hok, heq⟩ := Option.map_eq_some_iff.1 htouched
        obtain ⟨rfl, rfl, -⟩ : a = b ∧ slot = i ∧ false = nonLocal := by simpa using heq
        rw [← (hfans.places a ha).2.1]
        exact hs.fanned a slot (isFannedOut_writeInContext ha hcontext hok)
  | fanOutSlot a slot contexts replicate =>
      exact (fansOut_fanOutSlot (hop (.activation a) List.mem_cons_self) slot contexts replicate).disturbs
        fun _ _ _ h => by cases h
  | fanOutAll a contexts replicate =>
      exact (fansOut_fanOutAll (hop (.activation a) List.mem_cons_self) contexts replicate).disturbs
        fun _ _ _ h => by cases h
  | cleanFanOut a contexts => exact .untouched (gentle_cleanFanOut s a contexts) rfl
  | newCache n | registerContexts additional | enterContext context | leaveContext previous =>
      exact .untouched (gentle_of_same rfl rfl rfl) rfl

/-! ## Calls and closures -/

/-- Binding a name does not change how its activation is reached. -/
theorem irregular_bindName (s : Store) (a : ActivationId) (n : Name) (v : Value) (nonLocal : Bool) :
    (((bindName a n v nonLocal).run.run s).2.activation b).irregular = (s.activation b).irregular := by
  have hactivations := (findOrAddSlot_spec s (s.layoutOf a) n).2.1
  rw [bindName_run, ← irregular_of_activations hactivations]
  generalize (findOrAddSlot (s.layoutOf a) n).run s = added
  rcases added with ⟨slot, s₁⟩
  dsimp only
  cases hslot : s₁.slot? (s₁.layoutOf a) slot with
  | none => rw [write_run, hslot]
  | some info => rw [irregular_of_activations (activations_write hslot v nonLocal), irregular_setContent]

/-- **Binding arguments in a scope disturbs no slot**, unless the scope is reached irregularly. -/
theorem gentle_bindArguments (hregular : (s.activation a).irregular = false) (args : List (Formal × Option Value)) :
    s.Gentle ((bindArguments a args).run.run s).2 := by
  induction args generalizing s with
  | nil => exact .refl s
  | cons arg rest ih =>
      rcases arg with ⟨f, _ | v⟩
      · exact ih hregular
      · have hbound : s.Gentle ((bindName a f.name v false).run.run s).2 := by
          refine (upsets_bindName a f.name v false).gentle fun _ l i h => ?_
          rw [hregular] at h
          exact absurd h.2.2 Bool.false_ne_true
        have hkept := (irregular_bindName (b := a) s a f.name v false).trans hregular
        rw [bindArguments_cons_run]
        generalize (bindName a f.name v false).run.run s = result at hbound hkept ⊢
        rcases result with ⟨e | _, s₁⟩
        · exact hbound
        · exact hbound.before (ih hkept)

/-- **Giving control to a callee disturbs no slot**: its scope has just been made. -/
theorem gentle_invoke (s : Store) (maxDepth : Nat) (caller : ActivationId) (c : CallableId) (target : Option TargetId)
    (args : List (Option Value)) (demand : CallerDemand) :
    s.Gentle ((invoke maxDepth caller c target args demand).run.run s).2 := by
  have hhold : s.Gentle (s.hold (callRefs c args)) := gentle_of_same rfl rfl rfl
  cases hkind : (s.callable c).kind with
  | intrinsic body =>
      rw [invoke_intrinsic_run hkind]
      exact hhold
  | closure l enclosing shared =>
      rw [invoke_closure_run hkind]
      generalize s.hold (callRefs c args) = s₀ at hhold ⊢
      split
      · exact hhold
      have hnew := gentle_newScope s₀ l (some enclosing) (s.calleeDepth caller)
      cases hscope : (newScope l (some enclosing) (s.calleeDepth caller)).run.run s₀ with
      | mk result s₁ =>
          rw [hscope] at hnew
          cases result with
          | error e => exact hhold.before hnew
          | ok a =>
              obtain ⟨rfl, hpush⟩ := newScope_ok hscope
              -- Scopes are made regular, so binding the arguments disturbs nothing.
              have hregular : ((s₁.hold [.activation ⟨s₀.activations.size⟩]).activation
                  ⟨s₀.activations.size⟩).irregular = false := by
                show (s₁.activation ⟨s₀.activations.size⟩).irregular = false
                rw [activation_push hpush, if_pos rfl]
              have hheld : s.Gentle (s₁.hold [.activation ⟨s₀.activations.size⟩]) :=
                (hhold.before hnew).before (gentle_of_same rfl rfl rfl)
              have hbound := hheld.before (gentle_bindArguments hregular ((s.callable c).formals.zip args))
              dsimp only
              generalize (bindArguments _ ((s.callable c).formals.zip args)).run.run _ = bound at hbound ⊢
              rcases bound with ⟨e | _, s₂⟩
              · exact hbound
              · exact hbound.before (gentle_of_same rfl rfl rfl)

/-- Making a closure disturbs no slot. -/
theorem gentle_newClosure (s : Store) (spec : CallableSpec) (enclosing : ActivationId) (body : BodyId) :
    s.Gentle ((newClosure spec enclosing body).run.run s).2 := by
  have hlayout := gentle_newLayout s (spec.label.getD CallableSpec.anonymous) .function {}
  rw [newClosure_run]
  unfold enclosed
  generalize ((newLayout (spec.label.getD CallableSpec.anonymous) .function {}).run s).2 = s₁ at hlayout ⊢
  have hlink : s₁.Gentle (s₁.linked ⟨s.layouts.size⟩ (s.layoutOf enclosing)) :=
    (gentle_relinked s₁ _ _).before (gentle_addChild _ _ _)
  exact ((hlayout.before hlink).before (gentle_slotted _ _ spec.formals)).before (gentle_of_same rfl rfl rfl)

end Store

namespace Chain

variable {σ : Type}

/-- A call disturbs no slot: what comes before it only looks names up. -/
theorem gentle_thenEnter {i : SiteId} {limit : Nat} {caller : ActivationId} {act : EvalM σ Prepared}
    (hact : Prepares i limit act) (m : Machine σ) (hlimit : (m.store.site i).maxDepth = limit) :
    m.store.Gentle ((thenEnter caller act).run.run m).2.store := by
  have hprepared := (hact m hlimit).1.gentle
  unfold thenEnter
  rw [EvalM.run_bind]
  generalize act.run.run m = result at hprepared ⊢
  rcases result with ⟨e | p, m₁⟩
  · exact hprepared
  · exact hprepared.before
      (Store.gentle_invoke m₁.store p.maxDepth caller p.callable p.target p.args p.demand)

/-- **A call disturbs no slot**, however it ends. -/
theorem gentle_execute (getters : Getters σ) (i : SiteId) (caller : ActivationId) (c : CallableId) (m : Machine σ) :
    m.store.Gentle ((execute getters i caller c).run.run m).2.store := by
  rw [execute_eq]
  exact gentle_thenEnter (prepares_prepare getters i caller c) m rfl

theorem gentle_executeSite (getters : Getters σ) (i : SiteId) (caller : ActivationId) (m : Machine σ) :
    m.store.Gentle ((executeSite getters i caller).run.run m).2.store := by
  rw [executeSite_eq_prepareSite]
  exact gentle_thenEnter (prepares_prepareSite getters i caller) m rfl

end Chain

namespace Store

/-! ## Histories -/

/-- What a program does that may let the guard of a slot fall: an operation, or the invalidation of a guard that it
    has got hold of. -/
inductive Deed where
  | operate (op : Operation)
  | invalidate (g : GuardRef)

/-- Whether a deed is an event of a slot, in the store that it was done in. -/
def Deed.Disturbs (s : Store) (l : LayoutId) (i : Nat) : Deed → Prop
  | .operate op   => op.Disturbs s l i
  | .invalidate g => ∃ info, s.slot? l i = some info ∧ g = .plain info.notModifiedNonLocally

/-- Scopes are left alone, and so are all guards; a program may make guards of its own. -/
structure Sidesteps (s s' : Store) : Prop where
  layouts : s'.layouts = s.layouts
  activations : s'.activations = s.activations
  size : s.guards.size ≤ s'.guards.size
  guard : ∀ g, g.index < s.guards.size → s'.guard g = s.guard g

/-- A store that a program has got to, and the deeds on the way, each with the store that it was done in, the last
    one first. Making closures and calling functions, up to the bodies, are no deeds, nor is what sidesteps
    scopes. -/
inductive Past : Store → List (Store × Deed) → Prop where
  | start (names : List String) : Past (.new names) []
  | operate {s : Store} {done : List (Store × Deed)} (h : Past s done) (op : Operation)
      (hop : ∀ r ∈ op.operands, s.Allocated r) : Past (op.perform s) ((s, .operate op) :: done)
  | invalidate {s : Store} {done : List (Store × Deed)} (h : Past s done) (g : GuardRef) :
      Past (s.invalidateAt g) ((s, .invalidate g) :: done)
  | close {s : Store} {done : List (Store × Deed)} (h : Past s done) (spec : CallableSpec)
      (enclosing : ActivationId) (body : BodyId) : Past ((newClosure spec enclosing body).run.run s).2 done
  | call {s : Store} {done : List (Store × Deed)} (h : Past s done) {σ : Type} (getters : Getters σ) (host : σ)
      (i : SiteId) (caller : ActivationId) (c : CallableId) :
      Past ((Chain.execute getters i caller c).run.run ⟨s, host⟩).2.store done
  | callSite {s : Store} {done : List (Store × Deed)} (h : Past s done) {σ : Type} (getters : Getters σ) (host : σ)
      (i : SiteId) (caller : ActivationId) :
      Past ((Chain.executeSite getters i caller).run.run ⟨s, host⟩).2.store done
  | sidestep {s s' : Store} {done : List (Store × Deed)} (h : Past s done) (hs : s.Sidesteps s') : Past s' done

variable {s s₁ : Store} {l : LayoutId} {i : Nat} {info : SlotInfo} {done : List (Store × Deed)}

theorem Sidesteps.gentle (h : s.Sidesteps s₁) : s.Gentle s₁ := by
  have hposts : ∀ p, s₁.post p = s.post p := post_of_layouts h.layouts
  refine gentle_of_posts [] h.size (fun g hg => ?_) (fun _ => nofun) (fun _ _ _ => nofun)
    (fun _ _ _ hg => (hposts _).trans hg) (fun p _ hg => Or.inl ((hposts p).symm.trans hg))
    (fanned_of_activations h.activations)
  rw [guardValid, h.guard g hg, ← guardValid]

/-- A program that invalidates a guard disturbs the slot whose guard it is. -/
theorem upsets_invalidateAt (s : Store) (g : GuardRef) :
    s.Upsets (fun l i => (Deed.invalidate g).Disturbs s l i) (s.invalidateAt g) := by
  cases g with
  | plain g =>
      refine (upsets_invalidate s g).congr (fun _ l i h => Or.inr ?_) fun _ l i h => Or.inr ?_
      · obtain ⟨info, hslot, rfl⟩ := Option.map_eq_some_iff.1 h
        exact ⟨info, hslot, rfl⟩
      · obtain ⟨info, hslot, heq⟩ := h
        obtain rfl := GuardRef.plain.inj heq
        exact Option.map_eq_some_iff.2 ⟨info, hslot, rfl⟩
  | stable t =>
      exact Upsets.congr (gentle_of_same rfl rfl rfl) (fun _ _ _ => False.elim) fun _ _ _ ⟨_, _, h⟩ => nomatch h
  | lookup r =>
      exact Upsets.congr (gentle_of_same rfl rfl rfl) (fun _ _ _ => False.elim) fun _ _ _ ⟨_, _, h⟩ => nomatch h

/-- The guards of slots that have fallen are just those of the slots that were disturbed so far. -/
structure Accounted (s : Store) (done : List (Store × Deed)) : Prop where
  posted : s.Posted
  disturbed : ∀ l i, s.Disturbed l i ↔ ∃ d ∈ done, d.2.Disturbs d.1 l i

theorem accounted_new (names : List String) : (Store.new names).Accounted [] where
  posted := posted_new names
  disturbed l i := by
    constructor
    · rintro ⟨g, hg, -⟩
      exact absurd ((posted_new names).made _ g hg) (Nat.not_lt_zero _)
    · rintro ⟨d, hd, -⟩
      cases hd

/-- What disturbs no slot need not be accounted for. -/
theorem Accounted.gentle (h : s.Accounted done) (hgentle : s.Gentle s₁) : s₁.Accounted done where
  posted := hgentle.posted h.posted
  disturbed l i := ((hgentle.disturbed h.posted l i).trans (or_iff_left id)).trans (h.disturbed l i)

/-- A deed accounts for the slots that it disturbs. -/
theorem Accounted.deed (h : s.Accounted done) (d : Deed) (hd : s.Upsets (d.Disturbs s) s₁) :
    s₁.Accounted ((s, d) :: done) where
  posted := hd.posted h.posted
  disturbed l i := by rw [hd.disturbed h.posted, h.disturbed, List.exists_mem_cons_iff, or_comm]

/-- **The guards that have fallen are those of the slots that have been disturbed**, at every point of a history. -/
theorem Past.accounted (h : Past s done) : s.Accounted done := by
  induction h with
  | start names => exact accounted_new names
  | operate h op hop ih => exact ih.deed (.operate op) (upsets_perform op hop)
  | invalidate h g ih => exact ih.deed (.invalidate g) (upsets_invalidateAt _ g)
  | close h spec enclosing body ih => exact ih.gentle (gentle_newClosure _ spec enclosing body)
  | call h getters host i caller c ih => exact ih.gentle (Chain.gentle_execute getters i caller c ⟨_, host⟩)
  | callSite h getters host i caller ih => exact ih.gentle (Chain.gentle_executeSite getters i caller ⟨_, host⟩)
  | sidestep h hs ih => exact ih.gentle hs.gentle

/-- **The guard of a slot records just its events**, whatever the program has done, and through whichever scope of
    the layout: it has fallen if and only if the slot was written or removed from elsewhere, or converted to a value
    per context, or the program has invalidated that very guard. Regular writes and removals, arguments that are
    bound, a layout that is entered again and operations on other slots are none of these. -/
theorem modified_iff_disturbed (h : Past s done) (hslot : s.slot? l i = some info) :
    s.guardValid info.notModifiedNonLocally = false ↔ ∃ d ∈ done, d.2.Disturbs d.1 l i :=
  (disturbed_iff hslot).symm.trans (h.accounted.disturbed l i)

/-- A scope is entered by other means than nesting, and a binding is removed through it that there is not. -/
theorem modified_by_irregular_removal :
    let ops : List Operation := [.newLayout "f" .function {}, .newScope ⟨0⟩ none 0, .findOrAddSlot ⟨0⟩ ⟨2⟩,
      .define ⟨0⟩ ⟨3⟩ (.int 1), .markIrregular ⟨0⟩, .remove ⟨0⟩ ⟨2⟩]
    let s := ops.foldl Operation.perform (.new ["x", "y"])
    ∃ done, Past s done ∧ (∃ d ∈ done, d.2.Disturbs d.1 ⟨0⟩ 0) ∧ ¬ ∃ d ∈ done, d.2.Disturbs d.1 ⟨0⟩ 1 := by
  intro ops s
  have hpast : Past s _ :=
    ((((((Past.start ["x", "y"]).operate (.newLayout "f" .function {}) (by decide +kernel)).operate
      (.newScope ⟨0⟩ none 0) (by decide +kernel)).operate (.findOrAddSlot ⟨0⟩ ⟨2⟩) (by decide +kernel)).operate
      (.define ⟨0⟩ ⟨3⟩ (.int 1)) (by decide +kernel)).operate (.markIrregular ⟨0⟩) (by decide +kernel)).operate
      (.remove ⟨0⟩ ⟨2⟩) (by decide +kernel)
  have hremoved : s.slot? ⟨0⟩ 0 = some ⟨⟨2⟩, "f[0]", ⟨2⟩, ⟨3⟩, false, none, 2⟩ := by decide +kernel
  have hdefined : s.slot? ⟨0⟩ 1 = some ⟨⟨3⟩, "f[1]", ⟨4⟩, ⟨5⟩, false, none, 2⟩ := by decide +kernel
  refine ⟨_, hpast, (modified_iff_disturbed hpast hremoved).1 (by decide +kernel), fun hdisturbed => ?_⟩
  have hfallen := (modified_iff_disturbed hpast hdefined).2 hdisturbed
  exact absurd hfallen (by decide +kernel)

/-- **A guard that a program invalidates itself** has fallen without any of the other events. -/
theorem modified_by_program : ¬ ∀ s done l i info, Past s done → s.slot? l i = some info →
    (s.guardValid info.notModifiedNonLocally = false
      ↔ ∃ d ∈ done, ∃ op, d.2 = .operate op ∧ op.Disturbs d.1 l i) := by
  intro hclaim
  let s := [Operation.newLayout "m" .singleton {}, .findOrAddSlot ⟨0⟩ ⟨2⟩].foldl Operation.perform (.new ["x"])
  let info : SlotInfo := ⟨⟨2⟩, "m[0]", ⟨2⟩, ⟨3⟩, true, some ⟨0⟩, 2⟩
  have hpast : Past s _ := ((Past.start ["x"]).operate (.newLayout "m" .singleton {}) (by decide +kernel)).operate
    (.findOrAddSlot ⟨0⟩ ⟨2⟩) (by decide +kernel)
  have hslot : s.slot? ⟨0⟩ 0 = some info := by decide +kernel
  have hiff := hclaim _ _ ⟨0⟩ 0 info (hpast.invalidate (.plain ⟨2⟩)) hslot
  obtain ⟨d, hd, op, hop, hdisturbs⟩ := hiff.1 (by decide +kernel)
  rcases List.mem_cons.1 hd with rfl | hd
  · cases hop
  · -- The guard stood before the program invalidated it, so there was no event.
    have hfallen := (hpast.accounted.disturbed ⟨0⟩ 0).2 ⟨d, hd, by rw [hop]; exact hdisturbs⟩
    rw [disturbed_iff hslot] at hfallen
    exact absurd hfallen (by decide +kernel)

end Store

end ScopeCall
