import ScopeCall.Proofs.Replacing

/-!
# `ScopeCall.Proofs.Spending` — the budget of a slot counts its changes

A slot of a layout that admits one activation is tracked until what it holds has changed more often than its budget
allows. Writing what a slot holds already is no change, be it after a removal or in a new activation. Each change
that the budget allows brings a new token and uses up one unit; the next one ends the tracking.

## Contents
- **Histories.** `latest` and `changes`: what a slot holds, and how often it has come to hold something else.
- **Stories.** `Store.Story`: a slot from its making on.
- **Tallies.** What a history says of a slot, and what one more step makes of it.
- **The budget.** `Store.budget_counts_changes`.
-/

namespace ScopeCall

/-! ## Histories -/

/-- What a slot holds after it has been made to hold the values of a history, or nothing. What came last stands first;
    a slot is empty at first. -/
def latest (hist : List (Option Value)) : Option Value := hist.head?.join

/-- How many steps of a history have changed what the slot holds. -/
def changes : List (Option Value) → Nat
  | []        => 0
  | w :: hist => changes hist + if w = latest hist then 0 else 1

theorem changes_same {w : Option Value} {hist : List (Option Value)} (h : w = latest hist) :
    changes (w :: hist) = changes hist := by
  rw [changes, if_pos h, Nat.add_zero]

theorem changes_other {w : Option Value} {hist : List (Option Value)} (h : w ≠ latest hist) :
    changes (w :: hist) = changes hist + 1 := by
  rw [changes, if_neg h]

namespace Store

variable {s s₁ : Store} {l : LayoutId} {a : ActivationId} {i B : Nat} {info info₁ : SlotInfo} {n : Name} {v : Value}
  {w : Option Value} {hist : List (Option Value)} {op : Operation}

/-! ## Stories -/

/-- A slot has been made in a layout that admits one activation, with the budget `B`, and a program has come from there
    to a store without dividing the slot between contexts. What the slot was made to hold on the way is the history. -/
inductive Story (l : LayoutId) (i B : Nat) : Store → List (Option Value) → Prop where
  | born {s : Store} {n : Name} (hs : s.Sound) (hf : s.Furnished) (hl : s.Allocated (.layout l))
      (hk : (s.layout l).kind.isSingleton = true) (hn : (s.layout l).slotIndex? n = none)
      (hi : i = (s.layout l).slots.size) (hB : B = (s.layout l).policy.budgetFor (s.layout l).kind) :
      Story l i B ((findOrAddSlot l n).run s).2 []
  | operate {s : Store} {hist : List (Option Value)} {op : Operation} (h : Story l i B s hist)
      (hheld : ∀ r ∈ op.operands, r ∈ s.roots) (hwhole : (op.perform s).Undivided l i) :
      Story l i B (op.perform s) ((op.tells s l i).toList ++ hist)
  | elsewhere {s s' : Store} {hist : List (Option Value)} (h : Story l i B s hist) (helse : s.Elsewhere s')
      (hout : s.Outside s') : Story l i B s' hist

/-! ## Tallies -/

/-- A slot has the budget and the token that its history says. -/
structure Tally (s : Store) (B : Nat) (hist : List (Option Value)) (info : SlotInfo) : Prop where
  budget : info.budget = B - min (changes hist) B
  tracked : info.stable.isSome = true ↔ changes hist ≤ B
  value : ∀ t, info.stable = some t → (s.stable t).value = latest hist

/-- What a history says of its slot, and of the activation of the layout. -/
structure Tallies (s : Store) (l : LayoutId) (i B : Nat) (hist : List (Option Value)) : Prop where
  sound : s.Sound
  furnished : s.Furnished
  kind : (s.layout l).kind.isSingleton = true
  slot : ∃ info, s.slot? l i = some info ∧ s.Tally B hist info
  whole : s.Undivided l i
  scopes : ∀ a, s.Live (.activation a) → s.layoutOf a = l → s.content a i = .ofOption (latest hist)

theorem Tally.le (h : s.Tally B hist info) {t : StableId} (ht : info.stable = some t) : changes hist ≤ B :=
  h.tracked.1 (by rw [ht]; rfl)

theorem Tally.lt (h : s.Tally B hist info) (ht : info.stable = none) : B < changes hist :=
  Nat.not_le.1 fun hle => by simpa [ht] using h.tracked.2 hle

/-- **One more step of a history.** -/
theorem Tally.retold (h : s.Tally B hist info) (hretold : Retold s s₁ w info info₁)
    (hkept : ∀ t, info.stable = some t → (s₁.stable t).value = (s.stable t).value) :
    s₁.Tally B (w :: hist) info₁ := by
  have hbudget := h.budget
  cases hretold with
  | untracked ht =>
      -- Once the budget has been exceeded, it does not matter what counts.
      have hlt := h.lt ht
      have hmore : changes hist ≤ changes (w :: hist) := Nat.le_add_right _ _
      refine ⟨by omega, ?_, fun t ht' => by rw [ht] at ht'; cases ht'⟩
      rw [ht]
      exact ⟨fun hsome => absurd hsome Bool.false_ne_true, fun hle => by omega⟩
  | same ht hw =>
      have hsame : w = latest hist := hw.symm.trans (h.value _ ht)
      rw [← changes_same hsame] at hbudget
      refine ⟨hbudget, changes_same hsame ▸ h.tracked, fun u hu => ?_⟩
      rw [hkept u hu, h.value u hu, ← hsame]
      rfl
  | replaced ht hw hpos hnew hvalue =>
      have hother : w ≠ latest hist := fun hsame => hw ((h.value _ ht).trans hsame.symm)
      have hchanges := changes_other hother
      refine ⟨?_, ⟨fun _ => by omega, fun _ => rfl⟩, ?_⟩
      · show info.budget - 1 = _
        omega
      · rintro t ⟨rfl⟩
        exact hvalue.2
  | givenUp ht hw hzero =>
      have hother : w ≠ latest hist := fun hsame => hw ((h.value _ ht).trans hsame.symm)
      have hchanges := changes_other hother
      have hle := h.le ht
      refine ⟨?_, ⟨fun hsome => absurd hsome Bool.false_ne_true, fun hle' => by omega⟩, fun t ht' => by cases ht'⟩
      show info.budget = _
      omega

/-- A slot that is made is empty, and has its whole budget. -/
theorem slot?_widened (hl : s.Allocated (.layout l)) (hk : (s.layout l).kind.isSingleton = true) (n : Name) :
    ∃ info, (s.widened l n).slot? l (s.layout l).slots.size = some info
      ∧ info.budget = (s.layout l).policy.budgetFor (s.layout l).kind
      ∧ ∃ t, info.stable = some t ∧ ((s.widened l n).stable t).value = none := by
  unfold widened
  simp only [hk, if_true]
  refine ⟨_, (slot?_addSlot _ l l _ _).trans (if_pos ⟨rfl, hl, rfl⟩), rfl, _, rfl, ?_⟩
  exact congrArg StableValue.value ((stable_addStable s _ none _).trans (if_pos rfl))

theorem Tallies.born (hs : s.Sound) (hf : s.Furnished) (hl : s.Allocated (.layout l))
    (hk : (s.layout l).kind.isSingleton = true) (hn : (s.layout l).slotIndex? n = none) :
    ((findOrAddSlot l n).run s).2.Tallies l (s.layout l).slots.size
      ((s.layout l).policy.budgetFor (s.layout l).kind) [] := by
  obtain ⟨henlarges, hactivations, -⟩ := findOrAddSlot_spec s l n
  have hmarks : s.Marks (fun _ => True) ((findOrAddSlot l n).run s).2 := marks_findOrAddSlot s l n
  obtain ⟨info, hslot, hbudget, t, ht, hvalue⟩ := slot?_widened hl hk n
  have hempty : ∀ a, ((findOrAddSlot l n).run s).2.layoutOf a = l →
      ((findOrAddSlot l n).run s).2.content a (s.layout l).slots.size = .empty := by
    intro a ha
    rw [layoutOf_findOrAddSlot] at ha
    rw [content_congr hactivations]
    by_contra hcontent
    -- Nothing is stored past the slots of a layout.
    have hfits := hs.bindings.fits a (allocated_of_content hcontent)
    rw [ha] at hfits
    exact hcontent (by simp [content, Activation.content, Array.getElem?_eq_none hfits])
  have htally : ((findOrAddSlot l n).run s).2.Tally ((s.layout l).policy.budgetFor (s.layout l).kind) []
      info := {
    budget := by simp [hbudget, changes]
    tracked := by simp [ht, changes]
    value u hu := by
      obtain rfl : t = u := Option.some.inj (ht.symm.trans hu)
      rw [findOrAddSlot_run, hn]
      dsimp only
      rw [(swept_invalidateNames (s.widened l n) l [n]).eq]
      exact hvalue }
  exact {
    sound := (advances_findOrAddSlot hs hl n).sound hs
    furnished := hmarks.furnished hf
    kind := by rwa [henlarges.kind]
    slot := by
      refine ⟨info, ?_, htally⟩
      rw [findOrAddSlot_run, hn]
      exact (swept_invalidateNames (s.widened l n) l [n]).leaves.slot info hslot
    whole a ha := by
      rw [hempty a ha]
      rfl
    scopes a _ ha := hempty a ha }

section

variable (h : s.Tallies l i B hist)

include h

theorem Tallies.elsewhere (helse : s.Elsewhere s₁) (hout : s.Outside s₁) : s₁.Tallies l i B hist := by
  obtain ⟨info, hslot, htally⟩ := h.slot
  have hmarks : s.Marks (fun _ => True) s₁ := hout.marks
  have hlayoutOf := fun a => congrFun (layoutOf_congr helse.activations) a
  have hcontent := content_congr helse.activations
  have hstable : ∀ t, s₁.stable t = s.stable t := fun t => by rw [stable, helse.stables, ← stable]
  exact {
    sound := (helse.progress h.sound).sound
    furnished := hmarks.furnished h.furnished
    kind := by
      rw [helse.layout]
      exact h.kind
    slot := by
      refine ⟨info, ?_, htally.budget, htally.tracked, fun t ht => ?_⟩
      · rwa [slot?, helse.layout]
      · rw [hstable]
        exact htally.value t ht
    whole a ha := by
      rw [hcontent]
      exact h.whole a (hlayoutOf a ▸ ha)
    scopes a ha hl := by
      have hlive := helse.leads.live_before h.sound.wellFormed
        (fun ha => by rwa [Allocated, helse.activations] at ha) ha
      rw [hcontent]
      exact h.scopes a hlive (hlayoutOf a ▸ hl) }

/-- **A step of the program**, for the slot: its metadata stay, or the layout is told what it has come to hold. -/
theorem Tallies.becomes (hheld : ∀ r ∈ op.operands, r ∈ s.roots) (hwhole : (op.perform s).Undivided l i) :
    Becomes l i (op.tells s l i) s (op.perform s) := by
  obtain ⟨info, hslot, -⟩ := h.slot
  exact becomes_perform h.sound h.furnished hslot h.kind h.whole hheld hwhole

theorem Tallies.operate (hheld : ∀ r ∈ op.operands, r ∈ s.roots) (hwhole : (op.perform s).Undivided l i) :
    (op.perform s).Tallies l i B ((op.tells s l i).toList ++ hist) := by
  have hbecomes := h.becomes hheld hwhole
  have hprogress := progress_perform h.sound hheld
  have hmarks : s.Marks (fun _ => True) (op.perform s) := marks_perform h.furnished op fun _ _ => trivial
  obtain ⟨info, hslot, htally⟩ := h.slot
  have hkept : ∀ t, info.stable = some t → ((op.perform s).stable t).value = (s.stable t).value := fun t ht =>
    hprogress.later.kept t (h.sound.wellFormed.token (token_eq_some.2 ⟨info, hslot, ht⟩))
  have hkind := (kind_perform s op (allocated_of_slot? hslot)).symm ▸ h.kind
  generalize op.tells s l i = told at hbecomes ⊢
  cases told with
  | none =>
      have hpasses : Passes l i s (op.perform s) := hbecomes
      refine ⟨hprogress.sound, hmarks.furnished h.furnished, hkind, ⟨info, hpasses.slot info hslot, htally.budget,
        htally.tracked, fun t ht => (hkept t ht).trans (htally.value t ht)⟩, hwhole, fun a ha hl => ?_⟩
      obtain ⟨ha₀, hl₀, hcontent⟩ := hpasses.scopes a ha hl
      exact hcontent.trans (h.scopes a ha₀ hl₀)
  | some w =>
      have hsets : Sets l i w s (op.perform s) := hbecomes
      obtain ⟨info', hslot', hretold⟩ := hsets.tells info hslot
      exact ⟨hprogress.sound, hmarks.furnished h.furnished, hkind, ⟨info', hslot', htally.retold hretold hkept⟩, hwhole,
        hsets.scopes⟩

end

theorem Story.tallies (h : Story l i B s hist) : s.Tallies l i B hist := by
  induction h with
  | born hs hf hl hk hn hi hB => exact hi ▸ hB ▸ Tallies.born hs hf hl hk hn
  | operate _ hheld hwhole ih => exact ih.operate hheld hwhole
  | elsewhere _ helse hout ih => exact ih.elsewhere helse hout

/-- A write divides nothing. -/
theorem undivided_write (ha : s.Allocated (.activation a)) (hwhole : s.Undivided (s.layoutOf a) i)
    (hslot : s.slot? (s.layoutOf a) i = some info) (v : Value) (nonLocal : Bool) :
    ((write a i v nonLocal).run.run s).2.Undivided (s.layoutOf a) i := by
  intro b hb
  rw [layoutOf_congr (activations_write hslot v nonLocal), layoutOf_setContent] at hb
  rw [content_write ha hslot (hwhole a rfl)]
  split
  · rfl
  · exact hwhole b hb

/-- A name that has no slot is bound in one that is made for it, and written. -/
theorem Story.bound (hs : s.Sound) (hf : s.Furnished) (ha : Ref.activation a ∈ s.roots) (hla : s.layoutOf a = l)
    (hk : (s.layout l).kind.isSingleton = true) (hn : s.slotOf? a n = none) (hi : i = (s.layout l).slots.size)
    (hB : B = (s.layout l).policy.budgetFor (s.layout l).kind) (hv : ∀ r ∈ v.refs, r ∈ s.roots) (nonLocal : Bool) :
    Story l i B ((bindName a n v nonLocal).run.run s).2 [some v] := by
  have hl : s.Allocated (.layout l) := hla ▸ hs.wellFormed.layoutOf ha
  rw [slotOf?, hla] at hn
  have hborn : Story l i B _ [] := .born hs hf hl hk hn hi hB
  have hadv := advances_findOrAddSlot hs hl n
  have hlayout := (layoutOf_findOrAddSlot s l n a).trans hla
  have hfound : ((findOrAddSlot l n).run s).1 = i := by rw [findOrAddSlot_run, hn, hi]
  rw [bindName_run, hla, hfound]
  -- The rest is a write, by index, to the slot that has been made.
  generalize ((findOrAddSlot l n).run s).2 = s₁ at *
  obtain rfl := hlayout
  obtain ⟨info, hslot, -⟩ := hborn.tallies.slot
  have hheld : ∀ r ∈ (Operation.write a i v nonLocal).operands, r ∈ s₁.roots := by
    simp only [Operation.operands, List.forall_mem_cons]
    exact ⟨hadv.mem_roots ha, fun r hr => hadv.mem_roots (hv r hr)⟩
  have ha₁ := (hadv.sound hs).wellFormed.roots _ (hadv.mem_roots ha)
  have hstep := hborn.operate hheld (undivided_write ha₁ hborn.tallies.whole hslot v nonLocal)
  rwa [Operation.tells, if_pos ⟨rfl, rfl⟩] at hstep

/-- A slot is not divided as long as its guard against that stands. -/
theorem undivided_of_guard (hf : s.Furnished) (hwhole : s.Undivided l i) (op : Operation)
    (hguard : ((op.perform s).slot? l i).all fun info => (op.perform s).guardValid info.noFanOut) :
    (op.perform s).Undivided l i := by
  intro a ha
  have hmarks : s.Marks (fun _ => True) (op.perform s) := marks_perform hf op fun _ _ => trivial
  by_contra hdivided
  have hdivided : (op.perform s).isFannedOut a i = true := by simpa [isFannedOut] using hdivided
  -- A slot is converted by an operation that lets its guard fall.
  rcases hmarks.converted a i hdivided with hold | hnew
  · have hplain := hwhole a ((hmarks.places a (allocated_of_isFannedOut hold)).2.1.symm.trans ha)
    rw [isFannedOut, hplain] at hold
    exact Bool.false_ne_true hold
  · rw [ha] at hnew
    obtain ⟨info, hslot, hfallen, -⟩ := hnew
    rw [hslot, Option.all_some, hfallen.2] at hguard
    exact Bool.false_ne_true hguard

/-- A step that makes the slot hold something. -/
theorem Story.told (h : Story l i B s hist) (op : Operation) (hheld : ∀ r ∈ op.operands, r ∈ s.roots)
    (hguard : ((op.perform s).slot? l i).all fun info => (op.perform s).guardValid info.noFanOut)
    (htold : op.tells s l i = some w) : Story l i B (op.perform s) (w :: hist) := by
  have hstep := h.operate hheld (undivided_of_guard h.tallies.furnished h.tallies.whole op hguard)
  rwa [htold] at hstep

/-! ## The budget -/

/-- What a step makes of the metadata of a slot that has the budget `B` and a history, if the slot comes to hold what
    the layout is told. -/
structure Spends (s s' : Store) (B : Nat) (hist : List (Option Value)) (told : Option (Option Value))
    (info info' : SlotInfo) : Prop where
  same : (∀ w, told = some w → w = latest hist) →
    info' = info ∧ ∀ t, info.stable = some t → s'.stableValid t = true
  replaced : ∀ w, told = some w → w ≠ latest hist → changes hist < B →
    ∃ t t', info.stable = some t ∧ info'.stable = some t' ∧ ¬ s.Allocated (.stable t')
      ∧ s'.stableValid t = false ∧ s'.stableValid t' = true ∧ (s'.stable t').value = w
      ∧ info'.budget + 1 = info.budget
  ended : ∀ w, told = some w → w ≠ latest hist → B ≤ changes hist →
    info'.stable = none ∧ info'.budget = 0 ∧ ∀ t, info.stable = some t → s'.stableValid t = false

/-- **What is told a layout spends the budget of a slot.** -/
theorem Tally.spends (h : s.Tally B hist info) (hs : s.Sound) (hprogress : s.Progress s₁)
    (hslot : s.slot? l i = some info) (hslot₁ : s₁.slot? l i = some info₁) (hretold : Retold s s₁ w info info₁) :
    s.Spends s₁ B hist (some w) info info₁ := by
  have hbudget := h.budget
  have hvalid : ∀ t, info₁.stable = some t → s₁.stableValid t = true := fun t ht =>
    hprogress.sound.bindings.valid l i t (token_eq_some.2 ⟨info₁, hslot₁, ht⟩)
  -- A token that its slot has no longer is invalid.
  have hdropped : ∀ t, info.stable = some t → info₁.stable ≠ some t → s₁.stableValid t = false := by
    intro t ht hne
    refine (hprogress.later.dropped l i t (token_eq_some.2 ⟨info, hslot, ht⟩)).resolve_left fun hstill => ?_
    obtain ⟨info', hslot', ht'⟩ := token_eq_some.1 hstill
    obtain rfl : info₁ = info' := Option.some.inj (hslot₁.symm.trans hslot')
    exact hne ht'
  cases hretold with
  | untracked ht =>
      have hlt := h.lt ht
      refine ⟨fun _ => ⟨rfl, hvalid⟩, fun _ _ _ hmore => absurd hmore (by omega), fun _ _ _ _ => ⟨ht, by omega, ?_⟩⟩
      intro t ht'
      rw [ht] at ht'
      cases ht'
  | same ht hw =>
      have hsame : w = latest hist := hw.symm.trans (h.value _ ht)
      refine ⟨fun _ => ⟨rfl, hvalid⟩, fun w' hw' hne => ?_, fun w' hw' hne => ?_⟩ <;>
        exact absurd (Option.some.inj hw' ▸ hsame) hne
  | @replaced t t' ht hw hpos hnew hvalue =>
      have hother : w ≠ latest hist := fun hsame => hw ((h.value _ ht).trans hsame.symm)
      have htt' : t' ≠ t := by
        rintro rfl
        exact hnew (hs.wellFormed.token (token_eq_some.2 ⟨info, hslot, ht⟩))
      refine ⟨fun hsame => absurd (hsame w rfl) hother, fun w' hw' _ _ => ?_, fun _ _ _ hle => absurd hle (by omega)⟩
      refine ⟨t, t', ht, rfl, hnew, hdropped t ht fun heq => htt' (Option.some.inj heq), hvalid t' rfl,
        hvalue.2.trans (Option.some.inj hw'), ?_⟩
      exact Nat.sub_add_cancel hpos
  | givenUp ht hw hzero =>
      have hother : w ≠ latest hist := fun hsame => hw ((h.value _ ht).trans hsame.symm)
      have hle := h.le ht
      refine ⟨fun hsame => absurd (hsame w rfl) hother, fun _ _ _ hlt => absurd hlt (by omega), fun _ _ _ _ => ?_⟩
      exact ⟨rfl, hzero, fun t ht => hdropped t ht (Option.some_ne_none t).symm⟩

/-- **The invalidation budget counts changes exactly.** From its making on, a slot of a layout that admits one
    activation is written through activations of the layout and emptied, also because the last activation has died and
    another one is made. The slot holds what came last. With the budget `B` and `c` changes so far, `B - min c B` is
    left, and the slot is tracked as long as `c ≤ B`. A step that does not change what the slot holds leaves all of
    this as it is, the token and its validity included; each of the first `B` changes replaces the token by a new one,
    and the next one ends the tracking for good. -/
theorem budget_counts_changes (h : Story l i B s hist) :
    (∃ info, s.slot? l i = some info ∧ info.budget = B - min (changes hist) B
      ∧ (info.stable.isSome = true ↔ changes hist ≤ B)
      ∧ ∀ t, info.stable = some t → s.stableValid t = true ∧ (s.stable t).value = latest hist)
    ∧ (∀ a, s.Live (.activation a) → s.layoutOf a = l → s.content a i = .ofOption (latest hist))
    ∧ ∀ op : Operation, (∀ r ∈ op.operands, r ∈ s.roots) → (op.perform s).Undivided l i →
      ∀ info, s.slot? l i = some info → ∃ info', (op.perform s).slot? l i = some info'
        ∧ s.Spends (op.perform s) B hist (op.tells s l i) info info' := by
  have ht := h.tallies
  obtain ⟨info, hslot, htally⟩ := ht.slot
  refine ⟨⟨info, hslot, htally.budget, htally.tracked, fun t hinfo => ⟨?_, htally.value t hinfo⟩⟩, ht.scopes, ?_⟩
  · exact ht.sound.bindings.valid l i t (token_eq_some.2 ⟨info, hslot, hinfo⟩)
  intro op hheld hwhole info' hslot'
  obtain rfl : info = info' := Option.some.inj (hslot.symm.trans hslot')
  have hprogress := progress_perform ht.sound hheld
  have hbecomes := ht.becomes hheld hwhole
  generalize op.tells s l i = told at hbecomes ⊢
  cases told with
  | none =>
      have hpasses : Passes l i s (op.perform s) := hbecomes
      have hslot₁ := hpasses.slot info hslot
      refine ⟨info, hslot₁, fun _ => ⟨rfl, fun t hinfo => ?_⟩, fun w hw => (by cases hw), fun w hw => (by cases hw)⟩
      exact hprogress.sound.bindings.valid l i t (token_eq_some.2 ⟨info, hslot₁, hinfo⟩)
  | some w =>
      have hsets : Sets l i w s (op.perform s) := hbecomes
      obtain ⟨info₁, hslot₁, hretold⟩ := hsets.tells info hslot
      exact ⟨info₁, hslot₁, htally.spends ht.sound hprogress hslot hslot₁ hretold⟩

theorem outside_release (s : Store) (rs : List Ref) : s.Outside (s.release rs) := ⟨rfl, rfl, le_rfl, fun _ h => h⟩

/-- A module binds `x` to `1`, writes the same again and then `2`. Another activation of it starts over, which is one
    change too many. -/
theorem spent_by_restart :
    let s₀ := [Operation.newLayout "m" .singleton {}, .newScope ⟨0⟩ none 0].foldl Operation.perform (.new ["x"])
    let s₁ := (Operation.define ⟨0⟩ ⟨2⟩ (.int 1)).perform s₀
    let s₂ := (Operation.write ⟨0⟩ 0 (.int 1) false).perform s₁
    let s₃ := (Operation.write ⟨0⟩ 0 (.int 2) false).perform s₂
    let s₄ := s₃.release [.activation ⟨0⟩]
    let restart := Operation.newScope ⟨0⟩ none 0
    let hist := [some (.int 2), some (.int 1), some (.int 1)]
    Story ⟨0⟩ 0 2 s₄ hist ∧ changes hist = 2
      ∧ ∃ info t, s₄.slot? ⟨0⟩ 0 = some info ∧ info.stable = some t ∧ info.budget = 0 ∧ s₄.stableValid t = true
        ∧ ∃ info', (restart.perform s₄).slot? ⟨0⟩ 0 = some info' ∧ info'.stable = none
          ∧ (restart.perform s₄).stableValid t = false := by
  intro s₀ s₁ s₂ s₃ s₄ restart hist
  have h₀ : s₀.Recorded [] [] := (Chronicle.start.operateAll (by decide +kernel)).recorded
  have h₁ : Story ⟨0⟩ 0 2 s₁ [some (.int 1)] :=
    .bound h₀.sound h₀.mirrors.furnished (by decide +kernel) (by decide +kernel) (by decide +kernel)
      (by decide +kernel) (by decide +kernel) (by decide +kernel) (by decide +kernel) false
  have h₂ : Story ⟨0⟩ 0 2 s₂ [some (.int 1), some (.int 1)] :=
    h₁.told _ (by decide +kernel) (by decide +kernel) (by decide +kernel)
  have h₃ : Story ⟨0⟩ 0 2 s₃ hist := h₂.told _ (by decide +kernel) (by decide +kernel) (by decide +kernel)
  have h₄ : Story ⟨0⟩ 0 2 s₄ hist := h₃.elsewhere (elsewhere_release s₃ _) (outside_release s₃ _)
  have hwhole := undivided_of_guard h₄.tallies.furnished h₄.tallies.whole restart (by decide +kernel)
  obtain ⟨⟨info, hslot, hbudget, htracked, htoken⟩, -, hstep⟩ := budget_counts_changes h₄
  have hchanges : changes hist = 2 := by decide +kernel
  rw [hchanges] at hbudget htracked
  obtain ⟨t, ht⟩ := Option.isSome_iff_exists.1 (htracked.2 le_rfl)
  obtain ⟨info', hslot', hspends⟩ := hstep restart (by decide +kernel) hwhole info hslot
  obtain ⟨hnone, -, hinvalid⟩ := hspends.ended none (by decide +kernel) (by decide +kernel) (Nat.le_of_eq hchanges.symm)
  exact ⟨h₄, hchanges, info, t, hslot, ht, hbudget, (htoken t ht).1, info', hslot', hnone, hinvalid t ht⟩

end Store

end ScopeCall
