import Mathlib.Data.List.Nodup
import ScopeCall.Invoke
import ScopeCall.Proofs.Remembering

/-!
# `ScopeCall.Proofs.Entering` — the scope of a call

A call of a closure makes an activation of its layout and binds an argument in the slot of each formal, which
is made if need be. Each argument can be read there afterwards under the name of its formal; nothing else is
bound in the new scope, and no other scope notices.

## Contents
- **What is not about scopes.** `OnlyScopes`.
- **Making the scope.** `newScope_ok`.
- **Layouts that grow.** `Enlarges`: slots are added after those that are there.
- **Writing.** `findOrAddSlot_spec` and `write_spec`.
- **Binding.** `Binds`, and `bindArguments_run`.
-/

namespace ScopeCall

/-! ## Names of slots -/

theorem Layout.identifiers_modifySlot (x : Layout) (i : Nat) {f : SlotInfo → SlotInfo}
    (hf : ∀ info, (f info).name = info.name) : (x.modifySlot i f).identifiers = x.identifiers := by
  unfold Layout.identifiers Layout.modifySlot
  refine List.ext_getElem? fun j => ?_
  simp only [List.getElem?_map, Array.getElem?_toList, Array.getElem?_modify]
  split
  · rw [Option.map_map]
    exact congrArg (Option.map · _) (funext hf)
  · rfl

theorem Layout.identifiers_addSlot (x : Layout) (info : SlotInfo) :
    (x.addSlot info).identifiers = x.identifiers ++ [info.name] := by
  unfold Layout.identifiers Layout.addSlot
  rw [Array.toList_push, List.map_append, List.map_singleton]

/-- Slots that are added after the others take no name's place. -/
theorem Layout.slotIndex?_of_prefix {x y : Layout} (h : x.identifiers <+: y.identifiers) {n : Name}
    {i : Nat} (hn : x.slotIndex? n = some i) : y.slotIndex? n = some i := by
  rw [Layout.slotIndex?_eq] at hn ⊢
  exact h.findIdx?_eq_some hn

/-- A slot belongs to one name. -/
theorem Layout.slotIndex?_inj {x : Layout} {n m : Name} {i : Nat} (hn : x.slotIndex? n = some i)
    (hm : x.slotIndex? m = some i) : n = m := by
  obtain ⟨info, hinfo, rfl⟩ := Layout.slotIndex?_eq_some hn
  obtain ⟨info', hinfo', rfl⟩ := Layout.slotIndex?_eq_some hm
  rw [Option.some.inj (hinfo.symm.trans hinfo')]

namespace Store

variable {s s' s'' : Store} {l : LayoutId} {a : ActivationId}

/-! ## What is not about scopes -/

/-- `s'` is `s` with other layouts and activations, and with other notes about them. -/
def OnlyScopes (s s' : Store) : Prop :=
  s' = { s with
    guards := s'.guards
    stables := s'.stables
    lookups := s'.lookups
    layouts := s'.layouts
    activations := s'.activations
    nextSerial := s'.nextSerial }

namespace OnlyScopes

theorem refl (s : Store) : s.OnlyScopes s := rfl

theorem trans (h : s.OnlyScopes s') (h' : s'.OnlyScopes s'') : s.OnlyScopes s'' := by
  unfold OnlyScopes at h h' ⊢
  rw [h', h]

/-- What does not look at scopes is the same. -/
theorem part {α : Type} (h : s.OnlyScopes s') (f : Store → α)
    (hf : ∀ (s p : Store), f { s with
      guards := p.guards
      stables := p.stables
      lookups := p.lookups
      layouts := p.layouts
      activations := p.activations
      nextSerial := p.nextSerial } = f s) : f s' = f s := by
  unfold OnlyScopes at h
  rw [h]
  exact hf s s'

end OnlyScopes

theorem Swept.onlyScopes (h : s.Swept s') : s.OnlyScopes s' := by
  unfold OnlyScopes
  rw [h.eq]

theorem Swept.activations (h : s.Swept s') : s'.activations = s.activations := by
  rw [h.eq]

theorem onlyScopes_replaceStable (s : Store) (l : LayoutId) (i : Nat) (info : SlotInfo) (t : StableId)
    (v : Option Value) : s.OnlyScopes (s.replaceStable l i info t v) := by
  unfold replaceStable
  dsimp only
  split <;> rfl

theorem activations_replaceStable (s : Store) (l : LayoutId) (i : Nat) (info : SlotInfo) (t : StableId)
    (v : Option Value) : (s.replaceStable l i info t v).activations = s.activations := by
  unfold replaceStable
  dsimp only
  split <;> rfl

/-- Tracking a write replaces a stable value, or does nothing. -/
theorem recordWrite_keeps_or_replaces (s : Store) (l : LayoutId) (i : Nat) (v : Option Value) :
    ((recordWrite l i v).run s).2 = s
      ∨ ∃ info t, ((recordWrite l i v).run s).2 = s.replaceStable l i info t v := by
  rw [recordWrite_run]
  split
  · exact Or.inl rfl
  · split
    · exact Or.inl rfl
    · split
      · exact Or.inl rfl
      · exact Or.inr ⟨_, _, rfl⟩

theorem onlyScopes_recordWrite (s : Store) (l : LayoutId) (i : Nat) (v : Option Value) :
    s.OnlyScopes ((recordWrite l i v).run s).2 := by
  rcases recordWrite_keeps_or_replaces s l i v with h | ⟨info, t, h⟩ <;> rw [h]
  · exact .refl s
  · exact onlyScopes_replaceStable s l i info t v

theorem activations_recordWrite (s : Store) (l : LayoutId) (i : Nat) (v : Option Value) :
    ((recordWrite l i v).run s).2.activations = s.activations := by
  rcases recordWrite_keeps_or_replaces s l i v with h | ⟨info, t, h⟩ <;> rw [h]
  exact activations_replaceStable s l i info t v

theorem onlyScopes_emptied (s : Store) (l : LayoutId) (i n : Nat) :
    s.OnlyScopes (s.emptied l i n) ∧ (s.emptied l i n).activations = s.activations := by
  induction n generalizing s i with
  | zero => exact ⟨.refl s, rfl⟩
  | succ n ih =>
      rw [emptied_succ]
      obtain ⟨honly, hactivations⟩ := ih ((recordWrite l i none).run s).2 (i + 1)
      exact ⟨(onlyScopes_recordWrite s l i none).trans honly,
        hactivations.trans (activations_recordWrite s l i none)⟩

theorem onlyScopes_findOrAddSlot (s : Store) (l : LayoutId) (n : Name) :
    s.OnlyScopes ((findOrAddSlot l n).run s).2 := by
  rw [findOrAddSlot_run]
  cases (s.layout l).slotIndex? n with
  | some i => exact .refl s
  | none =>
      have hwidened : s.OnlyScopes (s.widened l n) := by
        unfold widened
        dsimp only
        split <;> rfl
      exact hwidened.trans (swept_invalidateNames _ l [n]).onlyScopes

theorem onlyScopes_write (s : Store) (a : ActivationId) (slot : Nat) (v : Value) (nonLocal : Bool) :
    s.OnlyScopes ((write a slot v nonLocal).run.run s).2 := by
  have hnoted : s.OnlyScopes (s.noted a v) := by
    unfold noted
    split <;> rfl
  have hstore : (s.noted a v).OnlyScopes ((store a slot v).run (s.noted a v)).2 := by
    rw [store_run]
    have hrecord := onlyScopes_recordWrite (s.noted a v) ((s.noted a v).layoutOf a) slot (some v)
    cases (s.noted a v).content a slot with
    | fanOut vs => rfl
    | _ => exact hrecord.trans rfl
  have hstored := hnoted.trans hstore
  rw [write_run]
  cases s.slot? (s.layoutOf a) slot with
  | none => exact .refl s
  | some info =>
      dsimp only
      generalize (store a slot v).run (s.noted a v) = result at hstored ⊢
      rcases result with ⟨filled, s₁⟩
      have hswept : s.OnlyScopes
          (if filled then s₁.invalidateNames (s.layoutOf a) [info.name] else s₁) := by
        split
        · exact hstored.trans (swept_invalidateNames _ _ _).onlyScopes
        · exact hstored
      have hnote : ∀ (s : Store) (irregular : Bool), s.OnlyScopes (s.noteWrite info nonLocal irregular) := by
        intro s irregular
        unfold noteWrite
        split <;> rfl
      exact hswept.trans (hnote _ _)

theorem onlyScopes_bindArguments (s : Store) (a : ActivationId) (args : List (Formal × Option Value)) :
    s.OnlyScopes ((bindArguments a args).run.run s).2 := by
  induction args generalizing s with
  | nil => exact .refl s
  | cons arg rest ih =>
      rcases arg with ⟨f, _ | v⟩
      · exact ih s
      · unfold bindArguments
        rw [run_get_bind, run_lift_bind, run_bind]
        have hslot := onlyScopes_findOrAddSlot s (s.layoutOf a) f.name
        generalize (findOrAddSlot (s.layoutOf a) f.name).run s = result at hslot ⊢
        rcases result with ⟨slot, s₁⟩
        have hwrite := hslot.trans (onlyScopes_write s₁ a slot v false)
        dsimp only
        generalize (write a slot v false).run.run s₁ = result at hwrite ⊢
        rcases result with ⟨e | _, s₂⟩
        · exact hwrite
        · exact hwrite.trans (ih s₂)

/-! ## Making the scope -/

theorem onlyScopes_initializeEnclosing (s : Store) (l : LayoutId) (parent : Option LayoutId) :
    s.OnlyScopes ((initializeEnclosing l parent).run.run s).2
      ∧ ((initializeEnclosing l parent).run.run s).2.activations = s.activations := by
  rw [initializeEnclosing_run]
  cases s.parent l with
  | none =>
      cases parent with
      | none => exact ⟨.refl s, rfl⟩
      | some p => exact ⟨rfl, rfl⟩
  | some actual =>
      dsimp only
      split <;> exact ⟨.refl s, rfl⟩

theorem onlyScopes_enter (s : Store) (l : LayoutId) (enclosing : Option ActivationId) (depth : Nat) :
    s.OnlyScopes ((enter l enclosing depth).run.run s).2 := by
  rw [enter_run]
  split
  · split
    · rfl
    · dsimp only
      split
      · have hclaimed : s.OnlyScopes (s.claimed l enclosing depth) := rfl
        exact (hclaimed.trans (onlyScopes_emptied _ l _ _).1).trans (swept_invalidateAll _ l).onlyScopes
      · rfl
  · rfl

theorem onlyScopes_newScope (s : Store) (l : LayoutId) (enclosing : Option ActivationId) (depth : Nat) :
    s.OnlyScopes ((newScope l enclosing depth).run.run s).2 := by
  rw [newScope_run]
  split
  · exact onlyScopes_enter s l enclosing depth
  · have hlink := (onlyScopes_initializeEnclosing s l (enclosing.map s.layoutOf)).1
    generalize (initializeEnclosing l (enclosing.map s.layoutOf)).run.run s = result at hlink ⊢
    rcases result with ⟨e | _, s₁⟩
    · exact hlink
    · exact hlink.trans (onlyScopes_enter s₁ l enclosing depth)

/-- Entering a layout makes one activation, which is empty. -/
theorem enter_ok {enclosing : Option ActivationId} {depth : Nat}
    (h : (enter l enclosing depth).run.run s = (.ok a, s')) :
    a = ⟨s.activations.size⟩ ∧ s'.activations = s.activations.push (s.entrant l enclosing depth) := by
  rw [enter_run] at h
  split at h
  · split at h
    · cases h
    · obtain ⟨ha, rfl⟩ := Prod.mk.inj h
      refine ⟨(Except.ok.inj ha).symm, ?_⟩
      split
      · exact (swept_invalidateAll _ l).activations.trans (onlyScopes_emptied _ l _ _).2
      · rfl
  · obtain ⟨ha, rfl⟩ := Prod.mk.inj h
    exact ⟨(Except.ok.inj ha).symm, rfl⟩

/-- **Making a scope makes one activation**, empty and nested where it was asked for. -/
theorem newScope_ok {enclosing : Option ActivationId} {depth : Nat}
    (h : (newScope l enclosing depth).run.run s = (.ok a, s')) :
    a = ⟨s.activations.size⟩ ∧ s'.activations = s.activations.push
      { serial := s.nextSerial, layout := l, depth, enclosing } := by
  rw [newScope_run] at h
  split at h
  · exact enter_ok h
  · obtain ⟨honly, hactivations⟩ := onlyScopes_initializeEnclosing s l (enclosing.map s.layoutOf)
    have hserial : ((initializeEnclosing l (enclosing.map s.layoutOf)).run.run s).2.nextSerial
        = s.nextSerial := by
      rw [initializeEnclosing_run]
      cases s.parent l with
      | none => cases enclosing <;> rfl
      | some actual =>
          dsimp only
          split <;> rfl
    generalize (initializeEnclosing l (enclosing.map s.layoutOf)).run.run s = result
      at h hactivations hserial
    rcases result with ⟨e | _, s₁⟩
    · cases h
    · obtain ⟨ha, hpush⟩ := enter_ok h
      unfold entrant at hpush
      rw [hactivations] at ha hpush
      rw [hserial] at hpush
      exact ⟨ha, hpush⟩

/-! ## Layouts that grow -/

/-- Slots may have been added to layouts, after those that were there. How layouts are nested is the same,
    and so is all that has nothing to do with scopes. -/
structure Enlarges (s s' : Store) : Prop where
  rest : s.OnlyScopes s'
  size : s'.layouts.size = s.layouts.size
  identifiers : ∀ k, (s.layout k).identifiers <+: (s'.layout k).identifiers
  kind : ∀ k, (s'.layout k).kind = (s.layout k).kind
  enclosing : ∀ k, (s'.layout k).enclosing = (s.layout k).enclosing

namespace Enlarges

theorem refl (s : Store) : s.Enlarges s :=
  ⟨.refl s, rfl, fun _ => List.prefix_rfl, fun _ => rfl, fun _ => rfl⟩

theorem trans (h : s.Enlarges s') (h' : s'.Enlarges s'') : s.Enlarges s'' where
  rest := h.rest.trans h'.rest
  size := h'.size.trans h.size
  identifiers k := (h.identifiers k).trans (h'.identifiers k)
  kind k := (h'.kind k).trans (h.kind k)
  enclosing k := (h'.enclosing k).trans (h.enclosing k)

/-- Nothing has become of layouts. -/
theorem of_layouts (hrest : s.OnlyScopes s') (h : s'.layouts = s.layouts) : s.Enlarges s' := by
  have hlayout : s'.layout = s.layout := by
    unfold layout
    rw [h]
  refine ⟨hrest, by rw [h], fun k => ?_, fun k => ?_, fun k => ?_⟩
  · rw [hlayout]
  · rw [hlayout]
  · rw [hlayout]

theorem swept (h : s.Swept s') : s.Enlarges s' := by
  refine ⟨h.onlyScopes, h.size, fun k => ?_, fun k => (h.layout k).kind, fun k => ?_⟩
  · unfold Layout.identifiers
    rw [(h.layout k).slots]
  · rw [(h.layout k).eq]

/-- One layout has changed, but for how it is nested. -/
theorem modifyLayout (s : Store) (l : LayoutId) {f : Layout → Layout}
    (hidentifiers : (s.layout l).identifiers <+: (f (s.layout l)).identifiers)
    (hkind : (f (s.layout l)).kind = (s.layout l).kind)
    (henclosing : (f (s.layout l)).enclosing = (s.layout l).enclosing) :
    s.Enlarges (s.modifyLayout l f) where
  rest := rfl
  size := Array.size_modify
  identifiers k := by
    rw [layout_modifyLayout]
    split
    · rename_i h
      rw [h.1]
      exact hidentifiers
    · exact List.prefix_rfl
  kind k := s.layout_modifyLayout_congr Layout.kind l k f hkind
  enclosing k := s.layout_modifyLayout_congr Layout.enclosing l k f henclosing

/-- A slot keeps its name. -/
theorem modifySlot (s : Store) (l : LayoutId) (i : Nat) {f : SlotInfo → SlotInfo}
    (hf : ∀ info, (f info).name = info.name) : s.Enlarges (s.modifySlot l i f) := by
  refine modifyLayout s l ?_ rfl rfl
  rw [Layout.identifiers_modifySlot _ i hf]

theorem recordWrite (s : Store) (l : LayoutId) (i : Nat) (v : Option Value) :
    s.Enlarges ((Store.recordWrite l i v).run s).2 := by
  rcases recordWrite_keeps_or_replaces s l i v with h | ⟨info, t, h⟩ <;> rw [h]
  · exact .refl s
  · have hinvalid : s.Enlarges (s.invalidateStable t) := of_layouts rfl rfl
    unfold replaceStable
    dsimp only
    split
    · have hnew : (s.invalidateStable t).Enlarges ((s.invalidateStable t).addStable info.label v) :=
        of_layouts rfl rfl
      exact (hinvalid.trans hnew).trans (modifySlot _ l i fun _ => rfl)
    · exact hinvalid.trans (modifySlot _ l i fun _ => rfl)

theorem noteWrite (s : Store) (info : SlotInfo) (nonLocal irregular : Bool) :
    s.Enlarges (s.noteWrite info nonLocal irregular) := by
  unfold Store.noteWrite
  split <;> exact of_layouts rfl rfl

theorem noted (s : Store) (a : ActivationId) (v : Value) : s.Enlarges (s.noted a v) := by
  unfold Store.noted
  split <;> exact of_layouts rfl rfl

/-- A slot is added after the others. -/
theorem widened (s : Store) (l : LayoutId) (n : Name) : s.Enlarges (s.widened l n) := by
  unfold Store.widened
  dsimp only
  have hbase : s.Enlarges (if (s.layout l).kind.isSingleton
      then s.addStable ((s.layout l).label ++ "[" ++ toString (s.layout l).slots.size ++ "]") none else s) := by
    split
    · exact of_layouts rfl rfl
    · exact .refl s
  generalize (if (s.layout l).kind.isSingleton then _ else s : Store) = s₁ at hbase ⊢
  have hguards : ∀ t u, s₁.Enlarges ((s₁.addGuard t).addGuard u) := fun _ _ => of_layouts rfl rfl
  refine (hbase.trans (hguards _ _)).trans (modifyLayout _ l ?_ rfl rfl)
  rw [Layout.identifiers_addSlot]
  exact List.prefix_append _ _

variable {n : Name} {i : Nat}

/-- The slot of a name stays the slot of that name. -/
theorem slotOf? (h : s.Enlarges s') (hlayout : s'.layoutOf a = s.layoutOf a)
    (hslot : s.slotOf? a n = some i) : s'.slotOf? a n = some i := by
  unfold Store.slotOf? at hslot ⊢
  rw [hlayout]
  exact Layout.slotIndex?_of_prefix (h.identifiers _) hslot

theorem allocated (h : s.Enlarges s') (hl : s.Allocated (.layout l)) : s'.Allocated (.layout l) :=
  Nat.lt_of_lt_of_eq hl h.size.symm

end Enlarges

/-! ## Writing -/

/-- After a slot has been looked for or made, it is the slot of the name. -/
theorem findOrAddSlot_spec (s : Store) (l : LayoutId) (n : Name) :
    s.Enlarges ((findOrAddSlot l n).run s).2
      ∧ ((findOrAddSlot l n).run s).2.activations = s.activations
      ∧ (s.Allocated (.layout l) →
          (((findOrAddSlot l n).run s).2.layout l).slotIndex? n = some ((findOrAddSlot l n).run s).1) := by
  rw [findOrAddSlot_run]
  cases hslot : (s.layout l).slotIndex? n with
  | some i => exact ⟨.refl s, rfl, fun _ => hslot⟩
  | none =>
      have hswept := swept_invalidateNames (s.widened l n) l [n]
      dsimp only
      refine ⟨(Enlarges.widened s l n).trans (.swept hswept), hswept.activations.trans ?_, fun hl => ?_⟩
      · unfold widened
        dsimp only
        split <;> rfl
      · have hwidened : ((s.widened l n).layout l).identifiers = (s.layout l).identifiers ++ [n] := by
          unfold widened
          dsimp only
          split
          all_goals
            rw [layout_modifyLayout_self]
            · exact Layout.identifiers_addSlot _ _
            · exact hl
        have hsame : (((s.widened l n).invalidateNames l [n]).layout l).identifiers
            = ((s.widened l n).layout l).identifiers := by
          unfold Layout.identifiers
          rw [(hswept.layout l).slots]
        have hsize : (s.layout l).identifiers.length = (s.layout l).slots.size := by
          unfold Layout.identifiers
          rw [List.length_map, Array.length_toList]
        -- No slot before has this name, so the one that has been added is the first.
        rw [Layout.slotIndex?_eq] at hslot
        rw [Layout.slotIndex?_eq, hsame, hwidened, List.findIdx?_append, hslot, ← hsize]
        simp

/-- **A value is written in its slot and nowhere else.** -/
theorem write_spec {i : Nat} {info : SlotInfo} (hslot : s.slot? (s.layoutOf a) i = some info)
    (hplain : (s.content a i).isFanOut = false) (v : Value) (nonLocal : Bool) :
    ∃ s', (write a i v nonLocal).run.run s = (.ok (), s') ∧ s.Enlarges s'
      ∧ s'.activations = (s.setContent a i (.value v)).activations := by
  rw [write_run, hslot]
  dsimp only
  have hnoted : s.Enlarges (s.noted a v) := .noted s a v
  have hactivations : (s.noted a v).activations = s.activations := by
    unfold noted
    split <;> rfl
  have hstore : ((store a i v).run (s.noted a v)).2
      = ((recordWrite ((s.noted a v).layoutOf a) i (some v)).run (s.noted a v)).2.setContent a i
          (.value v) := by
    have hcontent : (s.noted a v).content a i = s.content a i := by
      unfold content activation
      rw [hactivations]
    rw [store_run, hcontent]
    cases hc : s.content a i with
    | fanOut vs =>
        rw [hc] at hplain
        cases hplain
    | _ => rfl
  generalize (store a i v).run (s.noted a v) = stored at hstore ⊢
  rcases stored with ⟨filled, s₁⟩
  obtain rfl : s₁ = _ := hstore
  have hrecord := Enlarges.recordWrite (s.noted a v) ((s.noted a v).layoutOf a) i (some v)
  have hset : ∀ s₁ : Store, s₁.Enlarges (s₁.setContent a i (.value v)) := fun s₁ => .of_layouts rfl rfl
  have hwritten := (hnoted.trans hrecord).trans (hset _)
  -- Whether something is forgotten first or not, a note of the write comes last.
  have hlast : ∀ s₁ : Store, s₁.activations = (s.setContent a i (.value v)).activations →
      s.Enlarges s₁ → ∃ s', ((.ok (), s₁.noteWrite info nonLocal (s₁.activation a).irregular) :
        Except Fault Unit × Store) = (.ok (), s') ∧ s.Enlarges s'
        ∧ s'.activations = (s.setContent a i (.value v)).activations := by
    intro s₁ hs₁ henlarges
    refine ⟨_, rfl, henlarges.trans (.noteWrite s₁ info nonLocal _), Eq.trans ?_ hs₁⟩
    unfold noteWrite
    split <;> rfl
  have hhere : (((recordWrite ((s.noted a v).layoutOf a) i (some v)).run (s.noted a v)).2.setContent a i
      (.value v)).activations = (s.setContent a i (.value v)).activations := by
    unfold setContent modifyActivation
    dsimp only
    rw [activations_recordWrite, hactivations]
  dsimp only
  split
  · have hswept := swept_invalidateNames
      (((recordWrite ((s.noted a v).layoutOf a) i (some v)).run (s.noted a v)).2.setContent a i (.value v))
      (s.layoutOf a) [info.name]
    exact hlast _ (hswept.activations.trans hhere) (hwritten.trans (.swept hswept))
  · exact hlast _ hhere hwritten

/-- **A name is bound in its slot**, unless the layout does not exist. -/
theorem bindName_spec (hplain : ∀ i, (s.content a i).isFanOut = false)
    (n : Name) (v : Value) (nonLocal : Bool) :
    (∃ i s', (bindName a n v nonLocal).run.run s = (.ok i, s') ∧ s.Enlarges s'
        ∧ s'.activations = (s.setContent a i (.value v)).activations ∧ s'.slotOf? a n = some i)
      ∨ ¬ s.Allocated (.layout (s.layoutOf a))
        ∧ ∃ fault s', (bindName a n v nonLocal).run.run s = (.error fault, s') := by
  obtain ⟨hadd, hactivations, hslot⟩ := findOrAddSlot_spec s (s.layoutOf a) n
  unfold bindName
  rw [run_get_bind, run_lift_bind, run_bind]
  generalize (findOrAddSlot (s.layoutOf a) n).run s = result at hadd hactivations hslot ⊢
  rcases result with ⟨i, s₁⟩
  dsimp only at hadd hactivations hslot ⊢
  have hactivation : s₁.activation = s.activation := by
    unfold activation
    rw [hactivations]
  have hlayout : s₁.layoutOf a = s.layoutOf a := by rw [layoutOf, hactivation, ← layoutOf]
  by_cases hl : s.Allocated (.layout (s.layoutOf a))
  · have hslot₁ : s₁.slotOf? a n = some i := by
      rw [slotOf?, hlayout]
      exact hslot hl
    obtain ⟨info, hinfo, -⟩ := Layout.slotIndex?_eq_some hslot₁
    have hplain₁ : (s₁.content a i).isFanOut = false := by
      rw [content, hactivation]
      exact hplain i
    obtain ⟨s₂, hwrite, hwritten, hset⟩ := write_spec hinfo hplain₁ v nonLocal
    have hset' : s₂.activations = (s.setContent a i (.value v)).activations := by
      rw [hset, setContent, modifyActivation, hactivations]
      rfl
    have hlayout₂ : s₂.layoutOf a = s₁.layoutOf a := by
      rw [layoutOf, activation, hset, ← activation, ← layoutOf, layoutOf_setContent]
    rw [hwrite]
    exact Or.inl ⟨i, s₂, rfl, hadd.trans hwritten, hset', hwritten.slotOf? hlayout₂ hslot₁⟩
  · -- Without the layout there is no slot to write, and that is the only fault.
    have hnone : s₁.slot? (s₁.layoutOf a) i = none := by
      rw [Option.eq_none_iff_forall_ne_some]
      intro info hinfo
      rw [hlayout] at hinfo
      exact hl (Nat.lt_of_lt_of_eq (allocated_of_slot? hinfo) hadd.size)
    rw [write_run, hnone]
    exact Or.inr ⟨hl, _, _, rfl⟩

/-! ## Binding -/

/-- The arguments have been bound in a scope, each in the slot of its formal. -/
structure Binds (s s' : Store) (a : ActivationId) (args : List (Formal × Option Value)) : Prop where
  enlarges : s.Enlarges s'
  size : s'.activations.size = s.activations.size
  others : ∀ b, b ≠ a → s'.activation b = s.activation b
  here : ∃ contents, s'.activation a = { s.activation a with contents }
  bound : (args.map (·.1.name)).Nodup → ∀ f v, (f, some v) ∈ args →
    ∃ i, s'.slotOf? a f.name = some i ∧ s'.content a i = .value v
  free : ∀ i, s'.content a i = s.content a i ∨ ∃ f v, (f, some v) ∈ args ∧ s'.slotOf? a f.name = some i

namespace Binds

variable {args : List (Formal × Option Value)}

theorem layoutOf (h : s.Binds s' a args) : s'.layoutOf a = s.layoutOf a := by
  obtain ⟨contents, hhere⟩ := h.here
  unfold Store.layoutOf
  rw [hhere]

theorem nil (s : Store) (a : ActivationId) : s.Binds s a [] where
  enlarges := .refl s
  size := rfl
  others _ _ := rfl
  here := ⟨_, rfl⟩
  bound _ _ _ hf := absurd hf List.not_mem_nil
  free _ := Or.inl rfl

theorem cons_none (h : s.Binds s' a args) (f : Formal) : s.Binds s' a ((f, none) :: args) where
  enlarges := h.enlarges
  size := h.size
  others := h.others
  here := h.here
  bound hnodup g v hg := by
    refine h.bound (List.nodup_cons.1 hnodup).2 g v ((List.mem_cons.1 hg).resolve_left fun hc => ?_)
    cases hc
  free i := (h.free i).imp_right fun ⟨g, v, hg, hslot⟩ => ⟨g, v, List.mem_cons_of_mem _ hg, hslot⟩

/-- One more argument has been bound before. -/
theorem cons_some {s₁ : Store} {f : Formal} {v : Value} {i : Nat} (ha : s.Allocated (.activation a))
    (henlarges : s.Enlarges s₁) (hactivations : s₁.activations = (s.setContent a i (.value v)).activations)
    (hslot : s₁.slotOf? a f.name = some i) (h : s₁.Binds s' a args) :
    s.Binds s' a ((f, some v) :: args) := by
  have hactivation : ∀ b, s₁.activation b = (s.setContent a i (.value v)).activation b := fun b => by
    rw [activation, hactivations, ← activation]
  have hcontent : ∀ j, s₁.content a j = if j = i then .value v else s.content a j := by
    intro j
    have hset := content_setContent s a i j (.value v) ha
    rw [content, hactivation, ← content, hset]
    simp
  have hslot' : s'.slotOf? a f.name = some i := h.enlarges.slotOf? h.layoutOf hslot
  refine ⟨henlarges.trans h.enlarges, ?_, fun b hb => ?_, ?_, fun hnodup g w hg => ?_, fun j => ?_⟩
  · rw [h.size, hactivations]
    exact Array.size_modify
  · rw [h.others b hb, hactivation, setContent, activation_modifyActivation, if_neg fun hc => hb hc.1]
  · obtain ⟨contents, hhere⟩ := h.here
    refine ⟨contents, ?_⟩
    rw [hhere, hactivation, setContent, activation_modifyActivation, if_pos ⟨rfl, ha⟩]
    rfl
  · obtain ⟨hfresh, hrest⟩ := List.nodup_cons.1 hnodup
    rcases List.mem_cons.1 hg with hc | hg
    · obtain ⟨rfl, rfl⟩ : g = f ∧ w = v := by simpa using hc
      refine ⟨i, hslot', ?_⟩
      rcases h.free i with hsame | ⟨g', w, hg', hslotg⟩
      · rw [hsame, hcontent, if_pos rfl]
      · -- A later formal with this slot would have this name.
        have hname : g'.name = g.name := Layout.slotIndex?_inj hslotg hslot'
        exact absurd (List.mem_map.2 ⟨(g', some w), hg', hname⟩) hfresh
    · exact h.bound hrest g w hg
  · rcases h.free j with hsame | ⟨g, w, hg, hslotg⟩
    · rw [hsame, hcontent]
      split
      · rename_i hj
        exact Or.inr ⟨f, v, List.mem_cons_self, hj ▸ hslot'⟩
      · exact Or.inl rfl
    · exact Or.inr ⟨g, w, List.mem_cons_of_mem _ hg, hslotg⟩

end Binds

theorem bindArguments_cons_run (f : Formal) (v : Value) (rest : List (Formal × Option Value)) :
    (bindArguments a ((f, some v) :: rest)).run.run s
      = match (bindName a f.name v false).run.run s with
        | (.ok _, s₁)    => (bindArguments a rest).run.run s₁
        | (.error e, s₁) => (.error e, s₁) := by
  unfold bindName
  rw [bindArguments, run_get_bind, run_get_bind, run_lift_bind, run_lift_bind, run_bind, run_bind]
  generalize (write a _ v false).run.run _ = result
  rcases result with ⟨e | _, s₁⟩ <;> rfl

/-- **Binding arguments binds each of them**; it fails only if the layout does not exist. -/
theorem bindArguments_run (args : List (Formal × Option Value)) (ha : s.Allocated (.activation a))
    (hplain : ∀ i, (s.content a i).isFanOut = false) :
    (∃ s', (bindArguments a args).run.run s = (.ok (), s') ∧ s.Binds s' a args)
      ∨ ¬ s.Allocated (.layout (s.layoutOf a))
        ∧ ∃ fault s', (bindArguments a args).run.run s = (.error fault, s') := by
  -- The invariant is that the scope holds plain contents, which what is bound does not change.
  induction args generalizing s with
  | nil => exact Or.inl ⟨s, rfl, .nil s a⟩
  | cons arg rest ih =>
      rcases arg with ⟨f, _ | v⟩
      · rcases ih ha hplain with ⟨s', hrun, hbinds⟩ | hfault
        · exact Or.inl ⟨s', hrun, hbinds.cons_none f⟩
        · exact Or.inr hfault
      · rw [bindArguments_cons_run]
        rcases bindName_spec hplain f.name v false with
          ⟨i, s₁, hrun, henlarges, hactivations, hslot⟩ | ⟨hl, fault, s₁, hrun⟩
        · have hactivation : s₁.activation = (s.setContent a i (.value v)).activation := by
            unfold activation
            rw [hactivations]
          have ha₁ : s₁.Allocated (.activation a) :=
            Nat.lt_of_lt_of_eq ha ((congrArg Array.size hactivations).trans Array.size_modify).symm
          have hlayout : s₁.layoutOf a = s.layoutOf a := by
            rw [layoutOf, hactivation, ← layoutOf, layoutOf_setContent]
          have hplain₁ : ∀ j, (s₁.content a j).isFanOut = false := by
            intro j
            rw [content, hactivation, ← content, content_setContent s a i j _ ha]
            split
            · rfl
            · exact hplain j
          rw [hrun]
          rcases ih ha₁ hplain₁ with ⟨s', hrest, hbinds⟩ | ⟨hl, hfault⟩
          · exact Or.inl ⟨s', hrest, .cons_some ha henlarges hactivations hslot hbinds⟩
          · rw [hlayout] at hl
            exact Or.inr ⟨fun hhere => hl (henlarges.allocated hhere), hfault⟩
        · rw [hrun]
          exact Or.inr ⟨hl, fault, s₁, rfl⟩

/-! ## Entering -/

section Pushed

variable {x : Activation} (hpush : s'.activations = s.activations.push x)

include hpush

theorem activation_of_push (b : ActivationId) :
    s'.activation b = if b.index = s.activations.size then x else s.activation b := by
  unfold activation
  rw [hpush]
  exact Array.getD_push s.activations x b.index

theorem allocated_of_push : s'.Allocated (.activation ⟨s.activations.size⟩) := by
  show s.activations.size < s'.activations.size
  rw [hpush, Array.size_push]
  exact Nat.lt_succ_self _

/-- Arguments are bound in a scope that has just been made, if its layout exists. -/
theorem bindArguments_of_push (hempty : ∀ i, x.content i = .empty) (args : List (Formal × Option Value)) :
    (∃ s'', (bindArguments ⟨s.activations.size⟩ args).run.run s' = (.ok (), s'')
        ∧ s'.Binds s'' ⟨s.activations.size⟩ args)
      ∨ ¬ s'.Allocated (.layout x.layout)
        ∧ ∃ fault s'', (bindArguments ⟨s.activations.size⟩ args).run.run s' = (.error fault, s'') := by
  have hhere : s'.activation ⟨s.activations.size⟩ = x := (activation_of_push hpush _).trans (if_pos rfl)
  have hlayoutOf : s'.layoutOf ⟨s.activations.size⟩ = x.layout := congrArg Activation.layout hhere
  rw [← hlayoutOf]
  refine bindArguments_run args (allocated_of_push hpush) fun i => ?_
  rw [content, hhere, hempty]
  rfl

end Pushed

theorem run_except_bind {ε α β : Type} (act : ExceptT ε StoreM β) (f : β → ExceptT ε StoreM α) (s : Store) :
    (act >>= f).run.run s = match act.run.run s with
      | (.ok b, s₁)    => (f b).run.run s₁
      | (.error e, s₁) => (.error e, s₁) := by
  simp only [ExceptT.run_bind, StateT.run_bind]
  rcases act.run.run s with ⟨e | b, s₁⟩ <;> rfl

theorem ofFaultM_run {α : Type} (act : FaultM α) (s : Store) : (CallM.ofFaultM act).run.run s
    = ((act.run.run s).1.mapError EvalError.internal, (act.run.run s).2) := by
  unfold CallM.ofFaultM
  rw [ExceptT.run_mk, run_bind_state]
  cases (act.run.run s).1 <;> rfl

/-- The references that a call holds while its scope is made. -/
def callRefs (c : CallableId) (args : List (Option Value)) : List Ref :=
  .callable c :: args.flatMap fun v => (v.map Value.refs).getD []

/-- **A call of a closure**: the depth is checked, a scope is made, and the arguments are bound there. -/
theorem invoke_closure_run {c : CallableId} {enclosing : ActivationId} {shared : TargetId}
    (hkind : (s.callable c).kind = .closure l enclosing shared) (maxDepth : Nat) (caller : ActivationId)
    (target : Option TargetId) (args : List (Option Value)) (demand : CallerDemand) :
    (invoke maxDepth caller c target args demand).run.run s
      = if s.calleeDepth caller > maxDepth then
          (.error (.stackOverflow (s.calleeDepth caller)), s.hold (callRefs c args))
        else match (newScope l (some enclosing) (s.calleeDepth caller)).run.run (s.hold (callRefs c args)) with
          | (.error e, s₁) => (.error (.internal e), s₁)
          | (.ok a, s₁)    =>
            match (bindArguments a ((s.callable c).formals.zip args)).run.run (s₁.hold [.activation a]) with
            | (.error e, s₂) => (.error (.internal e), s₂)
            | (.ok _, s₂)    =>
              (.ok (.closure (target.getD shared)
                  { callable := c
                    activation := a
                    caller := if (s.callable c).wantsCaller then .materialized caller
                      else s₂.handleFor demand caller }),
                s₂.modifyTarget (target.getD shared) fun t => { t with calls := t.calls + 1 }) := by
  have hhold : ∀ f : Unit → CallM Entry, (modify (·.hold (callRefs c args)) >>= f).run.run s
      = (f ()).run.run (s.hold (callRefs c args)) := fun _ => rfl
  have hget : ∀ (s : Store) (f : Store → CallM Entry), (get >>= f).run.run s = (f s).run.run s :=
    fun _ _ => rfl
  have hcallable : (s.hold (callRefs c args)).callable = s.callable := rfl
  unfold invoke
  rw [← callRefs, hhold, hget, hcallable]
  dsimp only
  rw [hkind]
  dsimp only
  have hdepth : (s.hold (callRefs c args)).calleeDepth caller = s.calleeDepth caller := rfl
  rw [hdepth]
  -- Two steps may fail: making the scope, and binding.
  split
  · rfl
  · rw [run_except_bind, ofFaultM_run]
    generalize (newScope l (some enclosing) (s.calleeDepth caller)).run.run (s.hold (callRefs c args)) = result
    rcases result with ⟨e | a, s₁⟩
    · rfl
    · have hnew : ∀ f : Unit → CallM Entry, (modify (·.hold [.activation a]) >>= f).run.run s₁
          = (f ()).run.run (s₁.hold [.activation a]) := fun _ => rfl
      dsimp only [Except.mapError]
      rw [hnew, run_except_bind, ofFaultM_run]
      generalize (bindArguments a ((s.callable c).formals.zip args)).run.run (s₁.hold [.activation a])
        = result
      rcases result with ⟨e | _, s₂⟩ <;> rfl

/-- **A call of an intrinsic** hands over the arguments as they are. -/
theorem invoke_intrinsic_run {c : CallableId} {body : BodyId} (hkind : (s.callable c).kind = .intrinsic body)
    (maxDepth : Nat) (caller : ActivationId) (target : Option TargetId) (args : List (Option Value))
    (demand : CallerDemand) : (invoke maxDepth caller c target args demand).run.run s
      = (.ok (.intrinsic body { callable := c, caller, args }), s.hold (callRefs c args)) := by
  have hhold : ∀ f : Unit → CallM Entry, (modify (·.hold (callRefs c args)) >>= f).run.run s
      = (f ()).run.run (s.hold (callRefs c args)) := fun _ => rfl
  have hget : ∀ (s : Store) (f : Store → CallM Entry), (get >>= f).run.run s = (f s).run.run s :=
    fun _ _ => rfl
  have hcallable : (s.hold (callRefs c args)).callable = s.callable := rfl
  unfold invoke
  rw [← callRefs, hhold, hget, hcallable]
  dsimp only
  rw [hkind]
  rfl

/-- What a call of a closure leaves when it comes to the body: a new scope below the one closed over, in which
    the arguments are bound and nothing else. -/
structure Enters (s s' : Store) (caller : ActivationId) (l : LayoutId) (enclosing : ActivationId)
    (args : List (Formal × Option Value)) (a : ActivationId) : Prop where
  fresh : a = ⟨s.activations.size⟩
  others : ∀ b, s.Allocated (.activation b) → s'.activation b = s.activation b
  scope : ∃ contents, s'.activation a
    = { serial := s.nextSerial, layout := l, depth := s.calleeDepth caller, enclosing := some enclosing
        contents }
  bound : (args.map (·.1.name)).Nodup → ∀ f v, (f, some v) ∈ args →
    ∃ i, s'.slotOf? a f.name = some i ∧ s'.content a i = .value v
  free : ∀ i, s'.content a i = .empty ∨ ∃ f v, (f, some v) ∈ args ∧ s'.slotOf? a f.name = some i
  interner : s'.interner = s.interner

namespace Enters

variable {caller enclosing : ActivationId} {args : List (Formal × Option Value)}

/-- It does not matter what had become of other things than activations before the call. -/
theorem of_same {s₀ : Store} (h : s.Enters s' caller l enclosing args a)
    (hactivations : s.activations = s₀.activations) (hserial : s.nextSerial = s₀.nextSerial)
    (hinterner : s.interner = s₀.interner) : s₀.Enters s' caller l enclosing args a where
  fresh := hactivations ▸ h.fresh
  others b hb := by
    have hactivation : s.activation b = s₀.activation b := by
      unfold activation
      rw [hactivations]
    have hb' : s.Allocated (.activation b) := Nat.lt_of_lt_of_eq hb (congrArg Array.size hactivations.symm)
    exact (h.others b hb').trans hactivation
  scope := by
    have hdepth : s.calleeDepth caller = s₀.calleeDepth caller := by
      unfold calleeDepth activation
      rw [hactivations]
    rw [← hserial, ← hdepth]
    exact h.scope
  bound := h.bound
  free := h.free
  interner := h.interner.trans hinterner

/-- A name that reads as something is that of a formal with an argument. -/
theorem readName_cases (h : s.Enters s' caller l enclosing args a) (n : Name) :
    s'.readName a n = none ∨ ∃ f v, (f, some v) ∈ args ∧ f.name = n := by
  cases hslot : s'.slotOf? a n with
  | none =>
      unfold Store.readName
      rw [hslot]
      exact Or.inl rfl
  | some i =>
      rcases h.free i with hempty | ⟨f, v, hf, hslotf⟩
      · unfold Store.readName read readIn
        rw [hslot, Option.bind_some, hempty]
        exact Or.inl rfl
      · exact Or.inr ⟨f, v, hf, Layout.slotIndex?_inj hslotf hslot⟩

/-- **What a formal was given is what its name reads as**, in the scope itself. -/
theorem readName (h : s.Enters s' caller l enclosing args a) (hnodup : (args.map (·.1.name)).Nodup)
    {f : Formal} {r : Option Value} (hf : (f, r) ∈ args) : s'.readName a f.name = r := by
  cases r with
  | some v =>
      obtain ⟨i, hslot, hcontent⟩ := h.bound hnodup f v hf
      unfold Store.readName read readIn
      rw [hslot, Option.bind_some, hcontent]
      rfl
  | none =>
      refine (h.readName_cases f.name).resolve_right ?_
      rintro ⟨g, v, hg, hname⟩
      cases List.inj_on_of_nodup_map hnodup hg hf hname

/-- A name that no formal carries is not bound in the scope. -/
theorem readName_of_forall_ne (h : s.Enters s' caller l enclosing args a) {n : Name}
    (hn : ∀ f r, (f, r) ∈ args → f.name ≠ n) : s'.readName a n = none :=
  (h.readName_cases n).resolve_right fun ⟨f, _, hf, hname⟩ => hn f _ hf hname

end Enters

/-- **A call of a closure that succeeds enters its scope.** -/
theorem invoke_closure_ok {c : CallableId} {enclosing : ActivationId} {shared : TargetId}
    (hkind : (s.callable c).kind = .closure l enclosing shared) {maxDepth : Nat} {caller : ActivationId}
    {target : Option TargetId} {args : List (Option Value)} {demand : CallerDemand} {entry : Entry}
    (h : (invoke maxDepth caller c target args demand).run.run s = (.ok entry, s')) :
    s.calleeDepth caller ≤ maxDepth ∧ ∃ inv, entry = .closure (target.getD shared) inv
      ∧ inv.callable = c ∧ inv.caller.origin = caller
      ∧ s.Enters s' caller l enclosing ((s.callable c).formals.zip args) inv.activation
      ∧ s'.heap = s.heap := by
  rw [invoke_closure_run hkind] at h
  split at h
  · cases h
  rename_i hdepth
  refine ⟨Nat.le_of_not_lt hdepth, ?_⟩
  have honly := onlyScopes_newScope (s.hold (callRefs c args)) l (some enclosing) (s.calleeDepth caller)
  generalize hscope : (newScope l (some enclosing) (s.calleeDepth caller)).run.run (s.hold (callRefs c args))
    = result at h honly
  rcases result with ⟨e | a, s₁⟩
  · cases h
  obtain ⟨rfl, hactivations⟩ := newScope_ok hscope
  have hsize : (s.hold (callRefs c args)).activations.size = s.activations.size := rfl
  rw [hsize] at h
  dsimp only at h honly
  have hpush : (s₁.hold [.activation ⟨s.activations.size⟩]).activations = s.activations.push _ := hactivations
  have hactivation := activation_of_push hpush
  have hempty : ∀ i, (s₁.hold [.activation ⟨s.activations.size⟩]).content ⟨s.activations.size⟩ i = .empty := by
    intro i
    rw [content, hactivation, if_pos rfl]
    rfl
  rcases bindArguments_of_push hpush (fun _ => rfl) ((s.callable c).formals.zip args) with
    ⟨s₂, hrun, hbinds⟩ | ⟨-, fault, s₂, hrun⟩
  · rw [hrun] at h
    obtain ⟨hentry, rfl⟩ := Prod.mk.inj h
    have hrest := hbinds.enlarges.rest
    refine ⟨_, (Except.ok.inj hentry).symm, rfl, ?_, ?_, ?_⟩
    · dsimp only
      split
      · rfl
      · unfold handleFor
        split <;> rfl
    · exact {
        fresh := rfl
        others b hb := by
          have hne : b ≠ ⟨s.activations.size⟩ := fun hc => Nat.ne_of_lt hb (congrArg ActivationId.index hc)
          exact (hbinds.others b hne).trans ((hactivation b).trans (if_neg (Nat.ne_of_lt hb)))
        scope := by
          obtain ⟨contents, hhere⟩ := hbinds.here
          rw [hactivation, if_pos rfl] at hhere
          exact ⟨contents, hhere⟩
        bound := hbinds.bound
        free i := (hbinds.free i).imp_left fun hsame => hsame.trans (hempty i)
        interner := (hrest.part Store.interner fun _ _ => rfl).trans
          (honly.part Store.interner fun _ _ => rfl) }
    · exact (hrest.part Store.heap fun _ _ => rfl).trans (honly.part Store.heap fun _ _ => rfl)
  · rw [hrun] at h
    cases h

end Store

end ScopeCall
