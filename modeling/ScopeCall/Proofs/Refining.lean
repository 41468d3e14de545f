import ScopeCall.Proofs.Isolating

/-!
# `ScopeCall.Proofs.Refining` — a scope is a map from names to values

Slots are numbered by the layout, which all activations of it share, and a name can get its slot at any time and
through any of them. Storage is per activation, and grows when a slot is written. As long as no slot is converted
to hold a value per context, none of this shows: an activation reads under a name what it was last told to store
under it.

## Contents
- **Names and slots.** A slot that has been found for a name stays its slot.
- **Operations that store nothing.** `contents_perform`.
- **Storing and removing.** What slots hold after a write or a removal.
- **Maps.** `Store.Mirrors`: an activation holds what a map says, in the slots of its layout.
- **Chronicles.** What a program has stored and removed, and the indices that it was given.
- **Refinement.** `Store.activations_refine_maps`.
-/

namespace ScopeCall

namespace Store

variable {s s₁ : Store} {a b : ActivationId} {l : LayoutId} {i j : Nat} {n : Name} {v : Value}

/-! ## Names and slots -/

/-- The slot of a name stays its slot. -/
theorem Wanes.slotIndex? (h : s.Wanes s₁) (hf : s.Furnished) (hn : (s.layout l).slotIndex? n = some i) :
    (s₁.layout l).slotIndex? n = some i := by
  obtain ⟨info, hslot, rfl⟩ := Layout.slotIndex?_eq_some hn
  obtain ⟨info₁, hslot₁, hkeeps⟩ := h.slots l i info hslot
  rw [← hkeeps.name]
  exact (h.furnished hf).named l i info₁ hslot₁

theorem Marks.slotOf? {free : LayoutId → Prop} (h : s.Marks free s₁) (hf : s.Furnished)
    (ha : s.Allocated (.activation a)) (hn : s.slotOf? a n = some i) : s₁.slotOf? a n = some i := by
  rw [Store.slotOf?, (h.places a ha).2.1]
  exact h.toWanes.slotIndex? hf hn

/-! ## Operations that store nothing -/

/-- Whether an operation leaves alone what slots hold. -/
def Operation.storesNothing : Operation → Bool
  | .define .. | .assignNonLocal .. | .setActiveBinding .. | .write .. | .remove .. | .writeInContext ..
  | .fanOutSlot .. | .fanOutAll .. | .cleanFanOut .. => false
  | _ => true

/-- Slots hold what they held. -/
def SameContents (s s' : Store) : Prop := ∀ b j, s'.content b j = s.content b j

theorem SameContents.trans {s₂ : Store} (h : s.SameContents s₁) (h' : s₁.SameContents s₂) :
    s.SameContents s₂ := fun b j => (h' b j).trans (h b j)

theorem sameContents_of_eq (h : s₁.activations = s.activations) : s.SameContents s₁ := content_congr h

theorem Rewires.sameContents (h : s.Rewires s₁) : s.SameContents s₁ := fun b j => by
  rw [content, h.activation b]
  rfl

theorem Notes.sameContents (h : s.Notes s₁) : s.SameContents s₁ := sameContents_of_eq (by rw [h.rest])

theorem Swept.sameContents (h : s.Swept s₁) : s.SameContents s₁ := sameContents_of_eq h.activations

/-- A new activation is empty. -/
theorem sameContents_newScope (s : Store) (l : LayoutId) (enclosing : Option ActivationId) (depth : Nat) :
    s.SameContents ((newScope l enclosing depth).run.run s).2 := by
  rcases newScope_activations s l enclosing depth with hsame | ⟨x, hempty, hpush⟩
  · exact sameContents_of_eq hsame
  · exact content_push hempty hpush

theorem sameContents_setEnclosingLink (s : Store) (a : ActivationId) (parent : Option ActivationId) :
    s.SameContents (s.setEnclosingLink a parent) := (rewires_setEnclosingLink s a parent).sameContents

theorem sameContents_attach (s : Store) (a inserted : ActivationId) :
    s.SameContents ((attach a inserted).run.run s).2 := by
  rw [attach_run]
  split
  · exact fun _ _ => rfl
  · rename_i old _
    dsimp only
    have hcleared : s.SameContents (s.cleared (s.layoutOf a) (s.layoutOf inserted)) :=
      (swept_invalidateAll s _).sameContents.trans (swept_invalidateNames _ _ _).sameContents
    have hspliced := (rewires_spliced ((s.cleared (s.layoutOf a) (s.layoutOf inserted)).inherited
      (s.layoutOf inserted) old) (s.layoutOf a) (s.layoutOf inserted) old).sameContents
    exact ((hcleared.trans (sameContents_of_eq rfl)).trans hspliced).trans
      ((sameContents_setEnclosingLink _ a _).trans (sameContents_setEnclosingLink _ inserted _))

theorem sameContents_detachEnclosing (s : Store) (a : ActivationId) :
    s.SameContents ((detachEnclosing a).run.run s).2 := by
  rw [detachEnclosing_run]
  split
  · exact fun _ _ => rfl
  · rename_i old _
    dsimp only
    have hlink := ((swept_invalidateNames s old (s.layout old).identifiers).sameContents.trans
      (rewires_bypassed _ (s.layoutOf a) old (s.parent old)).sameContents).trans
      (sameContents_setEnclosingLink _ a none)
    split
    · exact hlink
    · exact (hlink.trans (sameContents_setEnclosingLink _ _ none)).trans (sameContents_setEnclosingLink _ a _)

/-- **Operations that store nothing** leave what all slots hold. -/
theorem contents_perform (op : Operation) (hop : op.storesNothing = true) : s.SameContents (op.perform s) := by
  cases op with
  | newLayout label kind policy => exact sameContents_of_eq rfl
  | newScope l enclosing depth =>
      have hnew := sameContents_newScope s l enclosing depth
      rw [Operation.perform]
      generalize (Store.newScope l enclosing depth).run.run s = result at hnew ⊢
      rcases result with ⟨e | a, s₁⟩
      · exact hnew
      · exact hnew.trans (sameContents_of_eq rfl)
  | initializeEnclosing l parent => exact sameContents_of_eq (onlyScopes_initializeEnclosing s l parent).2
  | relink l parent =>
      rw [Operation.perform, relinkTo_run]
      exact (swept_invalidateAll s l).sameContents.trans (rewires_rehung _ l parent).sameContents
  | findOrAddSlot l n => exact sameContents_of_eq (findOrAddSlot_spec s l n).2.1
  | invalidateNames l names => exact (swept_invalidateNames s l names).sameContents
  | invalidateAll l => exact (swept_invalidateAll s l).sameContents
  | markIrregular a => exact fun b j => activation_modifyActivation_congr s (·.content j) a b _ rfl
  | setEnclosing a parent =>
      rw [Operation.perform, setEnclosing_run]
      split
      · exact ((swept_invalidateAll s _).sameContents.trans (rewires_rehung _ _ _).sameContents).trans
          (sameContents_setEnclosingLink _ a parent)
      · exact fun _ _ => rfl
  | attach a inserted => exact sameContents_attach s a inserted
  | detachEnclosing a => exact sameContents_detachEnclosing s a
  | resolve a n => exact (Notes.resolve s a n).sameContents
  | cachedRead c a => exact (Notes.cachedRead s c a).sameContents
  | newCache n | registerContexts additional | enterContext context | leaveContext previous =>
      exact sameContents_of_eq rfl
  | _ => cases hop

/-! ## Storing and removing -/

/-- Writing a slot that has not been converted. -/
theorem content_write (ha : s.Allocated (.activation a)) {info : SlotInfo}
    (hslot : s.slot? (s.layoutOf a) i = some info) (hplain : (s.content a i).isFanOut = false) (v : Value)
    (nonLocal : Bool) (b : ActivationId) (j : Nat) :
    ((write a i v nonLocal).run.run s).2.content b j = if b = a ∧ j = i then .value v else s.content b j := by
  obtain ⟨s₁, hrun, -, hactivations⟩ := write_spec hslot hplain v nonLocal
  rw [hrun, content_congr hactivations, content_setContent s b i j _ ha]

/-- Emptying a slot that has not been converted. -/
theorem content_empty (ha : s.Allocated (.activation a)) (hplain : (s.content a i).isFanOut = false)
    (b : ActivationId) (j : Nat) :
    ((empty a i).run s).2.content b j = if b = a ∧ j = i then .empty else s.content b j := by
  by_cases hc : s.content a i = .empty
  · rw [empty_run]
    dsimp only
    rw [if_pos hc, content_congr (activations_recordWrite s _ i none)]
    split
    · rename_i hhere
      rw [hhere.1, hhere.2, hc]
    · rfl
  · have hemptied : s.emptiedContent a i = .empty := by
      obtain ⟨w, hw⟩ := SlotContent.eq_ofOption hplain
      rw [emptiedContent, hw]
      cases w <;> rfl
    rw [content_congr (activations_empty hc), content_setContent s b i j _ ha, hemptied]

/-- What emptying answers is whether there was a value. -/
theorem empty_answer (hplain : (s.content a i).isFanOut = false) :
    ((empty a i).run s).1 = (s.read a i).isSome := by
  obtain ⟨w, hw⟩ := SlotContent.eq_ofOption hplain
  rw [read, readIn, hw]
  cases w <;> simp [empty, hw, SlotContent.ofOption, SlotContent.readIn] <;> rfl

/-- Removing a name empties its slot. -/
theorem content_remove (ha : s.Allocated (.activation a)) (hindex : s.slotOf? a n = some i)
    (hplain : (s.content a i).isFanOut = false) (b : ActivationId) (j : Nat) :
    ((remove a n).run s).2.content b j = if b = a ∧ j = i then .empty else s.content b j := by
  obtain ⟨info, hslot, -⟩ := Layout.slotIndex?_eq_some hindex
  have hslot : s.slot? (s.layoutOf a) i = some info := hslot
  have hswept : ∀ s₁ : Store, ((s₁.noteWrite info false (s₁.activation a).irregular).invalidateNames
      (s.layoutOf a) [n]).activations = s₁.activations := fun s₁ =>
    (swept_invalidateNames _ _ _).activations.trans (activations_noteWrite s₁ _ _ _)
  rw [remove_run, hindex]
  dsimp only
  rw [hslot]
  dsimp only
  rw [content_congr (hswept _), content_empty ha hplain]

/-- What removing a name answers is what emptying its slot answers. -/
theorem remove_answer (hindex : s.slotOf? a n = some i) :
    ((remove a n).run s).1 = ((empty a i).run s).1 := by
  obtain ⟨info, hslot, -⟩ := Layout.slotIndex?_eq_some hindex
  have hslot : s.slot? (s.layoutOf a) i = some info := hslot
  rw [remove, run_get_bind_state, hindex]
  dsimp only
  rw [hslot]
  rfl

/-! ## Maps -/

/-- An activation holds what a map says of it, each value in the slot for its name. -/
structure Mirrors (s : Store) (held : ActivationId → Name → Option Value) : Prop where
  furnished : s.Furnished
  contents : ∀ a i, s.content a i
    = .ofOption ((s.slot? (s.layoutOf a) i).bind fun info => held a info.name)
  placed : ∀ a n v, held a n = some v → s.Allocated (.activation a) ∧ ∃ i, s.slotOf? a n = some i

/-- A map after one activation has been given a value for a name, or has lost it. -/
def assigned (held : ActivationId → Name → Option Value) (a : ActivationId) (n : Name) (w : Option Value) :
    ActivationId → Name → Option Value :=
  fun b m => if b = a ∧ m = n then w else held b m

section

variable {held : ActivationId → Name → Option Value} {w : Option Value}

theorem mirrors_new (names : List String) : (Store.new names).Mirrors fun _ _ => none where
  furnished := furnished_new names
  contents a i := by simp [content, activation, Store.new, Activation.content, default,
    instInhabitedActivation.default, SlotContent.ofOption]
  placed _ _ _ h := by cases h

variable (h : s.Mirrors held)

include h

/-- Slots that are added are those of names for which nothing is held. -/
theorem Mirrors.bind_slot? (hmarks : s.Marks (fun _ => True) s₁) (b : ActivationId) (j : Nat) :
    ((s₁.slot? (s₁.layoutOf b) j).bind fun info => held b info.name)
      = (s.slot? (s.layoutOf b) j).bind fun info => held b info.name := by
  by_cases hb : s.Allocated (.activation b)
  · rw [(hmarks.places b hb).2.1]
    cases hslot : s.slot? (s.layoutOf b) j with
    | some info =>
        obtain ⟨info₁, hslot₁, hkeeps⟩ := hmarks.slots _ j info hslot
        rw [hslot₁, Option.bind_some, Option.bind_some, hkeeps.name]
    | none =>
        cases hslot₁ : s₁.slot? (s.layoutOf b) j with
        | none => rfl
        | some info =>
            show held b info.name = none
            by_contra hsome
            obtain ⟨v, hv⟩ := Option.ne_none_iff_exists'.1 hsome
            -- The name had its slot before, and it has just one.
            obtain ⟨-, i, hi⟩ := h.placed b info.name v hv
            have hj := (hmarks.furnished h.furnished).named _ j info hslot₁
            have hsame := hmarks.toWanes.slotIndex? h.furnished hi
            obtain rfl : i = j := Option.some.inj (hsame.symm.trans hj)
            obtain ⟨info', hslot', -⟩ := Layout.slotIndex?_eq_some hi
            rw [slot?] at hslot
            rw [hslot] at hslot'
            cases hslot'
  · have hnone : ∀ m, held b m = none := fun m => by
      by_contra hsome
      obtain ⟨v, hv⟩ := Option.ne_none_iff_exists'.1 hsome
      exact hb (h.placed b m v hv).1
    simp [hnone]

theorem Mirrors.stillPlaced (hmarks : s.Marks (fun _ => True) s₁) (b : ActivationId) (m : Name) (v : Value)
    (hv : held b m = some v) : s₁.Allocated (.activation b) ∧ ∃ i, s₁.slotOf? b m = some i := by
  obtain ⟨hb, i, hi⟩ := h.placed b m v hv
  exact ⟨(hmarks.places b hb).1, i, hmarks.slotOf? h.furnished hb hi⟩

/-- A step that stores nothing. -/
theorem Mirrors.kept (hmarks : s.Marks (fun _ => True) s₁) (hsame : s.SameContents s₁) : s₁.Mirrors held where
  furnished := hmarks.furnished h.furnished
  contents b j := by rw [hsame, h.contents, h.bind_slot? hmarks]
  placed := h.stillPlaced hmarks

/-- A step that changes the content of one slot. -/
theorem Mirrors.assigned (hmarks : s.Marks (fun _ => True) s₁) (ha : s.Allocated (.activation a))
    (hindex : s₁.slotOf? a n = some i)
    (hcontents : ∀ b j, s₁.content b j = if b = a ∧ j = i then .ofOption w else s.content b j) :
    s₁.Mirrors (assigned held a n w) := by
  have hf := hmarks.furnished h.furnished
  obtain ⟨info, hslot, hname⟩ := Layout.slotIndex?_eq_some hindex
  refine ⟨hf, fun b j => ?_, fun b m v hv => ?_⟩
  · rw [hcontents]
    by_cases hhere : b = a ∧ j = i
    · obtain ⟨rfl, rfl⟩ := hhere
      have hslot : s₁.slot? (s₁.layoutOf b) j = some info := hslot
      rw [if_pos ⟨rfl, rfl⟩, hslot, Option.bind_some, Store.assigned, if_pos ⟨rfl, hname⟩]
    · rw [if_neg hhere, h.contents, ← h.bind_slot? hmarks]
      refine congrArg SlotContent.ofOption ?_
      cases hslot' : s₁.slot? (s₁.layoutOf b) j with
      | none => rfl
      | some info' =>
          rw [Option.bind_some, Option.bind_some, Store.assigned, if_neg]
          -- Another slot of the layout has another name.
          rintro ⟨rfl, hsame⟩
          have hj := hf.named _ j info' hslot'
          rw [hsame] at hj
          exact hhere ⟨rfl, Option.some.inj (hj.symm.trans hindex)⟩
  · rw [Store.assigned] at hv
    split at hv
    · rename_i hhere
      obtain ⟨rfl, rfl⟩ := hhere
      exact ⟨(hmarks.places b ha).1, i, hindex⟩
    · exact h.stillPlaced hmarks b m v hv

theorem Mirrors.not_isFanOut (a : ActivationId) (i : Nat) : (s.content a i).isFanOut = false := by
  rw [h.contents]
  cases (s.slot? (s.layoutOf a) i).bind fun info => held a info.name <;> rfl

theorem Mirrors.write (ha : s.Allocated (.activation a)) (hindex : s.slotOf? a n = some i) (v : Value)
    (nonLocal : Bool) : ((write a i v nonLocal).run.run s).1 = .ok ()
      ∧ ((write a i v nonLocal).run.run s).2.Mirrors (Store.assigned held a n (some v)) := by
  obtain ⟨info, hslot, -⟩ := Layout.slotIndex?_eq_some hindex
  have hmarks : s.Marks (fun _ => True) _ := marks_write h.furnished a i v nonLocal
  obtain ⟨s₁, hrun, -⟩ := write_spec hslot (h.not_isFanOut a i) v nonLocal
  exact ⟨congrArg Prod.fst hrun, h.assigned hmarks ha (hmarks.slotOf? h.furnished ha hindex)
    (content_write ha hslot (h.not_isFanOut a i) v nonLocal)⟩

theorem Mirrors.bindName (ha : s.Allocated (.activation a)) (v : Value) {nonLocal : Bool}
    (hok : ((bindName a n v nonLocal).run.run s).1 = .ok i) :
    ((bindName a n v nonLocal).run.run s).2.Mirrors (Store.assigned held a n (some v))
      ∧ ((bindName a n v nonLocal).run.run s).2.slotOf? a n = some i := by
  have hmarks : s.Marks (fun _ => True) _ := marks_bindName h.furnished a n v nonLocal
  rcases bindName_spec (fun j => h.not_isFanOut a j) n v nonLocal with
    ⟨j, s₁, hrun, -, hactivations, hindex⟩ | ⟨-, fault, s₁, hrun⟩
  · rw [hrun] at hok hmarks ⊢
    obtain rfl : j = i := Except.ok.inj hok
    refine ⟨h.assigned hmarks ha hindex fun b k => ?_, hindex⟩
    rw [content_congr hactivations, content_setContent s b j k _ ha]
    rfl
  · rw [hrun] at hok
    cases hok

/-- A name without a slot has nothing to be removed. -/
theorem Mirrors.eq_none (hindex : s.slotOf? a n = none) : held a n = none := by
  by_contra hsome
  obtain ⟨v, hv⟩ := Option.ne_none_iff_exists'.1 hsome
  obtain ⟨-, i, hi⟩ := h.placed a n v hv
  rw [hindex] at hi
  cases hi

theorem Mirrors.remove (ha : s.Allocated (.activation a)) (n : Name) :
    ((remove a n).run s).2.Mirrors (Store.assigned held a n none) := by
  have hmarks : s.Marks (fun _ => True) _ := marks_remove s a n
  cases hindex : s.slotOf? a n with
  | none =>
      have hsame : Store.assigned held a n none = held := by
        funext b m
        rw [Store.assigned]
        split
        · rename_i hhere
          obtain ⟨rfl, rfl⟩ := hhere
          exact (h.eq_none hindex).symm
        · rfl
      rw [remove_run, hindex, hsame]
      exact h
  | some i =>
      exact h.assigned hmarks ha (hmarks.slotOf? h.furnished ha hindex)
        (content_remove ha hindex (h.not_isFanOut a i))

/-- What is read under a name is what the map says. -/
theorem Mirrors.readName (a : ActivationId) (n : Name) : s.readName a n = held a n := by
  rw [Store.readName]
  cases hindex : s.slotOf? a n with
  | none => exact (h.eq_none hindex).symm
  | some i =>
      obtain ⟨info, hslot, rfl⟩ := Layout.slotIndex?_eq_some hindex
      have hslot : s.slot? (s.layoutOf a) i = some info := hslot
      show (s.content a i).readIn s.contexts.current = _
      rw [h.contents, hslot, Option.bind_some]
      cases held a info.name <;> rfl

/-- Removing answers whether something was held. -/
theorem Mirrors.remove_answer (a : ActivationId) (n : Name) :
    ((Store.remove a n).run s).1 = (held a n).isSome := by
  rw [← h.readName, Store.readName]
  cases hindex : s.slotOf? a n with
  | none =>
      rw [Store.remove, run_get_bind_state, hindex]
      rfl
  | some i =>
      rw [Store.remove_answer hindex, empty_answer (h.not_isFanOut a i)]
      rfl

/-- What is read in a slot is what the map says of its name, and past the last slot there is nothing. -/
theorem Mirrors.read (a : ActivationId) (i : Nat) :
    s.read a i = (s.slot? (s.layoutOf a) i).bind fun info => held a info.name := by
  rw [Store.read, readIn, h.contents]
  cases (s.slot? (s.layoutOf a) i).bind fun info => held a info.name <;> rfl

end

/-! ## Chronicles -/

/-- What an activation was told to do under a name. -/
inductive Event where
  | stored (a : ActivationId) (n : Name) (v : Value)
  | removed (a : ActivationId) (n : Name)

/-- What an activation has stored last under a name and not removed since. The last event comes first. -/
def heldAfter : List Event → ActivationId → Name → Option Value
  | [],                 _, _ => none
  | .stored b m v :: es, a, n => if a = b ∧ n = m then some v else heldAfter es a n
  | .removed b m :: es,  a, n => if a = b ∧ n = m then none else heldAfter es a n

/-- A program has come to a store without converting a slot. It has told activations to store and to remove values,
    and has been answered slot indices for names of layouts; what came last stands first. A slot is written by an
    index that was answered for its name. -/
inductive Chronicle (names : List String) : Store → List Event → List (LayoutId × Name × Nat) → Prop
  | start : Chronicle names (.new names) [] []
  | findOrAddSlot {s es is l n} : Chronicle names s es is → Ref.layout l ∈ s.roots →
      Chronicle names ((Operation.findOrAddSlot l n).perform s) es
        ((l, n, ((Store.findOrAddSlot l n).run s).1) :: is)
  | define {s es is a n v i} : Chronicle names s es is →
      (∀ r ∈ (Operation.define a n v).operands, r ∈ s.roots) →
      ((Store.define a n v).run.run s).1 = .ok i →
      Chronicle names ((Operation.define a n v).perform s) (.stored a n v :: es) ((s.layoutOf a, n, i) :: is)
  | assignNonLocal {s es is a n v i} : Chronicle names s es is →
      (∀ r ∈ (Operation.assignNonLocal a n v).operands, r ∈ s.roots) →
      ((Store.assignNonLocal a n v).run.run s).1 = .ok i →
      Chronicle names ((Operation.assignNonLocal a n v).perform s) (.stored a n v :: es)
        ((s.layoutOf a, n, i) :: is)
  | setActiveBinding {s es is a n g i} : Chronicle names s es is → Ref.activation a ∈ s.roots →
      ((Store.setActiveBinding a n g).run.run s).1 = .ok i →
      Chronicle names ((Operation.setActiveBinding a n g).perform s) (.stored a n (.active g) :: es)
        ((s.layoutOf a, n, i) :: is)
  | write {s es is a n i v nonLocal} : Chronicle names s es is →
      (∀ r ∈ (Operation.write a i v nonLocal).operands, r ∈ s.roots) → (s.layoutOf a, n, i) ∈ is →
      Chronicle names ((Operation.write a i v nonLocal).perform s) (.stored a n v :: es) is
  | remove {s es is a n} : Chronicle names s es is → Ref.activation a ∈ s.roots →
      Chronicle names ((Operation.remove a n).perform s) (.removed a n :: es) is
  | operate {s es is} {op : Operation} : Chronicle names s es is → (∀ r ∈ op.operands, r ∈ s.roots) →
      op.storesNothing = true → Chronicle names (op.perform s) es is
  | elsewhere {s s' es is} : Chronicle names s es is → s.Elsewhere s' → s.Outside s' → Chronicle names s' es is

/-- What a chronicle says of the store that the program has come to. -/
structure Recorded (s : Store) (es : List Event) (is : List (LayoutId × Name × Nat)) : Prop where
  sound : s.Sound
  mirrors : s.Mirrors (heldAfter es)
  indices : ∀ l n i, (l, n, i) ∈ is → (s.layout l).slotIndex? n = some i

section

variable {es : List Event} {is : List (LayoutId × Name × Nat)} {op : Operation}

theorem recorded_new (names : List String) : (Store.new names).Recorded [] [] :=
  ⟨sound_new names, mirrors_new names, fun _ _ _ h => absurd h List.not_mem_nil⟩

variable (h : s.Recorded es is)

include h

/-- Indices that have been answered stay right. -/
theorem Recorded.stillIndices (hmarks : s.Marks (fun _ => True) s₁) :
    ∀ l n i, (l, n, i) ∈ is → (s₁.layout l).slotIndex? n = some i :=
  fun l n i hmem => hmarks.toWanes.slotIndex? h.mirrors.furnished (h.indices l n i hmem)

theorem Recorded.allocated {r : Ref} (hr : r ∈ s.roots) : s.Allocated r := h.sound.wellFormed.roots r hr

/-- A step that stores nothing. -/
theorem Recorded.kept (hs : s₁.Sound) (hmarks : s.Marks (fun _ => True) s₁) (hsame : s.SameContents s₁) :
    s₁.Recorded es is := ⟨hs, h.mirrors.kept hmarks hsame, h.stillIndices hmarks⟩

theorem Recorded.operate (hheld : ∀ r ∈ op.operands, r ∈ s.roots) (hop : op.storesNothing = true) :
    (op.perform s).Recorded es is :=
  h.kept (progress_perform h.sound hheld).sound
    (marks_perform h.mirrors.furnished op fun _ _ => trivial) (contents_perform op hop)

theorem Recorded.findOrAddSlot (hl : Ref.layout l ∈ s.roots) (n : Name) :
    ((Operation.findOrAddSlot l n).perform s).Recorded es
      ((l, n, ((Store.findOrAddSlot l n).run s).1) :: is) := by
  have hkept : ((Operation.findOrAddSlot l n).perform s).Recorded es is :=
    h.operate (by simpa [Operation.operands] using hl) rfl
  refine ⟨hkept.sound, hkept.mirrors, fun k m i hmem => ?_⟩
  rcases List.mem_cons.1 hmem with heq | hmem
  · cases heq
    exact (findOrAddSlot_spec s l n).2.2 (h.allocated hl)
  · exact hkept.indices k m i hmem

/-- An operation that binds a name. -/
theorem Recorded.bindName (hs : (op.perform s).Sound) {nonLocal : Bool}
    (hop : op.perform s = ((Store.bindName a n v nonLocal).run.run s).2) (ha : Ref.activation a ∈ s.roots)
    (hok : ((Store.bindName a n v nonLocal).run.run s).1 = .ok i) :
    (op.perform s).Recorded (.stored a n v :: es) ((s.layoutOf a, n, i) :: is) := by
  have hmarks : s.Marks (fun _ => True) (op.perform s) := marks_perform h.mirrors.furnished op fun _ _ => trivial
  obtain ⟨hmirrors, hindex⟩ := h.mirrors.bindName (h.allocated ha) v hok
  rw [← hop] at hmirrors hindex
  refine ⟨hs, hmirrors, fun k m j hmem => ?_⟩
  rcases List.mem_cons.1 hmem with heq | hmem
  · cases heq
    rwa [slotOf?, (hmarks.places a (h.allocated ha)).2.1] at hindex
  · exact h.stillIndices hmarks k m j hmem

theorem Recorded.write {nonLocal : Bool} (hheld : ∀ r ∈ (Operation.write a i v nonLocal).operands, r ∈ s.roots)
    (hindex : (s.layoutOf a, n, i) ∈ is) :
    ((Operation.write a i v nonLocal).perform s).Recorded (.stored a n v :: es) is :=
  ⟨(progress_perform h.sound hheld).sound,
    (h.mirrors.write (h.allocated (hheld _ List.mem_cons_self)) (h.indices _ n i hindex) v nonLocal).2,
    h.stillIndices (marks_perform h.mirrors.furnished _ fun _ _ => trivial)⟩

theorem Recorded.remove (ha : Ref.activation a ∈ s.roots) (n : Name) :
    ((Operation.remove a n).perform s).Recorded (.removed a n :: es) is :=
  ⟨(progress_perform h.sound (by simpa [Operation.operands] using ha)).sound,
    h.mirrors.remove (h.allocated ha) n,
    h.stillIndices (marks_perform h.mirrors.furnished _ fun _ _ => trivial)⟩

end

/-- Operations that store nothing, one after another. -/
theorem Chronicle.operateAll {names : List String} {es : List Event} {is : List (LayoutId × Name × Nat)}
    {ops : List Operation} (h : Chronicle names s es is)
    (hfit : allFit (fun _ op => op.storesNothing) s ops = true) :
    Chronicle names (ops.foldl Operation.perform s) es is := by
  induction ops generalizing s with
  | nil => exact h
  | cons op ops ih =>
      simp only [allFit, Bool.and_eq_true, List.all_eq_true, List.contains_iff_mem] at hfit
      exact ih (h.operate hfit.1.1 hfit.1.2) hfit.2

theorem Chronicle.recorded {names : List String} {es : List Event} {is : List (LayoutId × Name × Nat)}
    (h : Chronicle names s es is) : s.Recorded es is := by
  induction h with
  | start => exact recorded_new names
  | findOrAddSlot _ hl ih => exact ih.findOrAddSlot hl _
  | define _ hheld hok ih | assignNonLocal _ hheld hok ih =>
      exact ih.bindName (progress_perform ih.sound hheld).sound rfl (hheld _ List.mem_cons_self) hok
  | setActiveBinding _ ha hok ih =>
      exact ih.bindName (progress_perform ih.sound (by simpa [Operation.operands] using ha)).sound rfl ha hok
  | write _ hheld hindex ih => exact ih.write hheld hindex
  | remove _ ha ih => exact ih.remove ha _
  | operate _ hheld hop ih => exact ih.operate hheld hop
  | elsewhere _ helse hout ih =>
      exact ih.kept (helse.progress ih.sound).sound hout.marks (sameContents_of_eq helse.activations)

/-- **Scopes are maps from names to values.** A program stores values in scopes and removes them, by name or by the
    index that it was answered for a name, among scopes that share layouts and others, and converts no slot. Every
    scope then reads under a name, and in the slot of a name, what it has stored last and not removed, and nothing
    otherwise. An index that was answered for a name is and stays the slot of the name in its layout. Removing
    answers whether there was a value, and binding a name, or writing by an index, does not fail. -/
theorem activations_refine_maps {names : List String} {es : List Event} {is : List (LayoutId × Name × Nat)}
    (h : Chronicle names s es is) :
    (∀ a n, s.readName a n = heldAfter es a n)
    ∧ (∀ a i, s.read a i = (s.slot? (s.layoutOf a) i).bind fun info => heldAfter es a info.name)
    ∧ (∀ l n i, (l, n, i) ∈ is →
      (s.layout l).slotIndex? n = some i ∧ ∃ info, s.slot? l i = some info ∧ info.name = n)
    ∧ (∀ a n, ((remove a n).run s).1 = (heldAfter es a n).isSome)
    ∧ (∀ a, Ref.activation a ∈ s.roots → ∀ n v nonLocal, ∃ i,
      ((bindName a n v nonLocal).run.run s).1 = .ok i)
    ∧ ∀ a, Ref.activation a ∈ s.roots → ∀ n i, (s.layoutOf a, n, i) ∈ is → ∀ v nonLocal,
      ((write a i v nonLocal).run.run s).1 = .ok () := by
  have hrec := h.recorded
  have hmirrors := hrec.mirrors
  refine ⟨hmirrors.readName, hmirrors.read, fun l n i hmem => ?_, hmirrors.remove_answer, ?_, ?_⟩
  · have hindex := hrec.indices l n i hmem
    exact ⟨hindex, Layout.slotIndex?_eq_some hindex⟩
  · intro a ha n v nonLocal
    rcases bindName_spec (fun j => hmirrors.not_isFanOut a j) n v nonLocal with ⟨i, s₁, hrun, -⟩ | ⟨hnone, -⟩
    · exact ⟨i, congrArg Prod.fst hrun⟩
    · exact absurd (hrec.sound.wellFormed.layoutOf ha) hnone
  · exact fun a ha n i hmem v nonLocal =>
      (hmirrors.write (hrec.allocated ha) (hrec.indices _ n i hmem) v nonLocal).1

/-- Two scopes of one layout: the first binds `x`, the second `y`, and later `x` by the index that the first one was
    answered; the first one removes `x`. -/
theorem refined_of_interleaved :
    let names := ["x", "y"]
    let s₀ := [Operation.newLayout "f" .function {}, .newScope ⟨0⟩ none 0, .newScope ⟨0⟩ none 0].foldl
      Operation.perform (.new names)
    let s₁ := (Operation.define ⟨0⟩ ⟨2⟩ (.int 1)).perform s₀
    let s₂ := (Operation.assignNonLocal ⟨1⟩ ⟨3⟩ (.int 2)).perform s₁
    let s₃ := (Operation.write ⟨1⟩ 0 (.int 3) false).perform s₂
    let s₄ := (Operation.remove ⟨0⟩ ⟨2⟩).perform s₃
    let es : List Event := [.removed ⟨0⟩ ⟨2⟩, .stored ⟨1⟩ ⟨2⟩ (.int 3), .stored ⟨1⟩ ⟨3⟩ (.int 2),
      .stored ⟨0⟩ ⟨2⟩ (.int 1)]
    (∃ is, Chronicle names s₄ es is)
      ∧ s₄.readName ⟨0⟩ ⟨2⟩ = none ∧ s₄.readName ⟨0⟩ ⟨3⟩ = none
      ∧ s₄.readName ⟨1⟩ ⟨2⟩ = some (.int 3) ∧ s₄.read ⟨1⟩ 1 = some (.int 2)
      ∧ ((remove ⟨0⟩ ⟨2⟩).run s₄).1 = false := by
  intro names s₀ s₁ s₂ s₃ s₄ es
  have h₀ : Chronicle names s₀ [] [] := Chronicle.start.operateAll (by decide +kernel)
  have h₁ : Chronicle names s₁ (es.drop 3) [(s₀.layoutOf ⟨0⟩, ⟨2⟩, 0)] :=
    h₀.define (by decide +kernel) (by decide +kernel)
  have h₂ : Chronicle names s₂ (es.drop 2) [(s₁.layoutOf ⟨1⟩, ⟨3⟩, 1), (s₀.layoutOf ⟨0⟩, ⟨2⟩, 0)] :=
    h₁.assignNonLocal (by decide +kernel) (by decide +kernel)
  have h₃ : Chronicle names s₃ (es.drop 1) [(s₁.layoutOf ⟨1⟩, ⟨3⟩, 1), (s₀.layoutOf ⟨0⟩, ⟨2⟩, 0)] :=
    h₂.write (by decide +kernel) (by decide +kernel)
  have h₄ : Chronicle names s₄ es [(s₁.layoutOf ⟨1⟩, ⟨3⟩, 1), (s₀.layoutOf ⟨0⟩, ⟨2⟩, 0)] :=
    h₃.remove (by decide +kernel)
  obtain ⟨hnames, hslots, -, hremove, -⟩ := activations_refine_maps h₄
  exact ⟨⟨_, h₄⟩, hnames _ _, hnames _ _, hnames _ _, (hslots _ _).trans (by decide +kernel), hremove _ _⟩

end Store

end ScopeCall
