import ScopeCall.Proofs.Marking

/-!
# `ScopeCall.Proofs.Isolating` — contexts do not see each other

A slot that has been converted holds an entry per context. Every operation that writes or empties it looks up
its content again and changes the entry of the current context only, whichever of the many operations it is and
however many entries there are; cleaning empties the entries it is told to. So what a context sees of the slot
can be told from what that context has done alone, and from cleanings. The state of the slot is forgotten in
this: it is a fold over the operations.

## Contents
- **Entries.** What is read after an entry is written or emptied.
- **Converted slots.** `Store.Converted`, which every step of a program keeps.
- **Contents.** What operations make of one content, and of all others.
- **What a context sees.** `Operation.sees`, and `Converted.readIn_performIn`, one operation of one context.
- **Converting.** `Store.readIn_converting`: the write that converts a slot.
- **Isolation.** `Store.contexts_isolated`.
-/

namespace ScopeCall

/-! ## Entries -/

namespace ContextValues

variable (vs : ContextValues)

theorem read_grow (size d : Nat) : (vs.grow size).read d = vs.read d := by
  unfold read grow
  rw [Array.getElem?_append]
  split
  · rfl
  · rename_i hge
    rw [Array.getElem?_eq_none (Nat.le_of_not_lt hge), Array.getElem?_replicate]
    split <;> rfl

/-- A write is read back in its context, and leaves all others. There may have been no entry before. -/
theorem read_write (context : Nat) (w : Option Value) (d : Nat) :
    (vs.write context w).read d = if d = context then w else vs.read d := by
  have hroom : context < (vs.grow (context + 1)).size := by
    simp only [grow, Array.size_append, Array.size_replicate]
    omega
  by_cases hd : d = context
  · subst hd
    simp [read, write, hroom]
  · rw [if_neg hd, read, write, Array.getElem?_setIfInBounds, if_neg (Ne.symm hd)]
    exact vs.read_grow (context + 1) d

theorem read_clear (context d : Nat) :
    (vs.clear context).read d = if d = context then none else vs.read d := by
  rw [read, clear, Array.getElem?_setIfInBounds]
  by_cases hd : context = d
  · subst hd
    rw [if_pos rfl, if_pos rfl]
    split <;> rfl
  · rw [if_neg hd, if_neg (Ne.symm hd)]
    rfl

theorem read_foldl_clear (cs : List Nat) (d : Nat) :
    (cs.foldl clear vs).read d = if d ∈ cs then none else vs.read d := by
  induction cs generalizing vs with
  | nil => rfl
  | cons c cs ih =>
      rw [List.foldl_cons, ih, read_clear]
      by_cases hd : d = c <;> by_cases hin : d ∈ cs <;> simp [hd, hin]

theorem read_clearOthers (d : Nat) :
    vs.clearOthers.read d = if d = primordial then vs.read d else none := by
  unfold read clearOthers
  rw [Array.getElem?_mapIdx]
  by_cases hd : d = primordial
  · subst hd
    cases vs[primordial]? <;> rfl
  · have hd' : d ≠ 0 := hd
    cases vs[d]? <;> simp [hd, hd']

end ContextValues

/-- Names that have slots of a layout are one just if their slots are. -/
theorem Layout.slotIndex?_eq_iff {x : Layout} {m n : Name} {i j : Nat} (hm : x.slotIndex? m = some j)
    (hn : x.slotIndex? n = some i) : j = i ↔ m = n := by
  constructor
  · rintro rfl
    exact Layout.slotIndex?_inj hm hn
  · rintro rfl
    exact Option.some.inj (hm.symm.trans hn)

namespace Store

variable {s s₁ : Store} {a b : ActivationId} {i j : Nat} {n : Name} {c : SlotContent}

/-! ## Converted slots -/

/-- A slot that has been converted, with its name. -/
structure Converted (s : Store) (a : ActivationId) (i : Nat) (n : Name) : Prop where
  furnished : s.Furnished
  fanned : s.isFannedOut a i = true
  named : s.slotOf? a n = some i
  unshared : s.Unshared (s.layoutOf a) i

/-- Any step of a program, whatever it does. -/
abbrev AnyRun : Store → Store → Prop := ScopeRun fun _ _ => true

theorem AnyRun.marks (h : AnyRun s s₁) (hf : s.Furnished) : s.Marks (fun _ => True) s₁ :=
  ScopeRun.marks h hf fun _ _ _ _ _ => trivial

theorem Converted.of_marks (h : s.Converted a i n) (hmarks : s.Marks (fun _ => True) s₁) :
    s₁.Converted a i n := by
  have hlayoutOf : s₁.layoutOf a = s.layoutOf a := (hmarks.places a (allocated_of_isFannedOut h.fanned)).2.1
  have hf := hmarks.furnished h.furnished
  obtain ⟨info, hslot, rfl⟩ := Layout.slotIndex?_eq_some h.named
  obtain ⟨info₁, hslot₁, hkeeps⟩ := hmarks.slots (s.layoutOf a) i info hslot
  refine ⟨hf, hmarks.fanned a i h.fanned, ?_, ?_⟩
  · -- The slot has the name that it had, and a name has one slot.
    show (s₁.layout (s₁.layoutOf a)).slotIndex? info.name = some i
    rw [hlayoutOf, ← hkeeps.name]
    exact hf.named _ i info₁ hslot₁
  · rw [hlayoutOf]
    exact hmarks.toWanes.unshared h.unshared

/-- A slot that holds an entry per context has been converted by an operation. -/
theorem converted_of_isFannedOut {names : List String} (h : AnyRun (.new names) s)
    (hfanned : s.isFannedOut a i = true) : ∃ n, s.Converted a i n := by
  have hmarks := h.marks (furnished_new names)
  have hf := hmarks.furnished (furnished_new names)
  rcases hmarks.converted a i hfanned with hnew | hunshared
  · exact absurd (allocated_of_isFannedOut hnew) (Nat.not_lt_zero _)
  · obtain ⟨info, hslot, -⟩ := id hunshared
    exact ⟨info.name, hf, hfanned, hf.named _ i info hslot, hunshared⟩

/-! ## Contents -/

theorem readIn_congr (h : s₁.activations = s.activations) (a : ActivationId) (i d : Nat) :
    s₁.readIn a i d = s.readIn a i d := congrArg (SlotContent.readIn d) (content_congr h a i)

/-- Where a content has been replaced, the new one is read. -/
theorem readIn_replaced (ha : s.Allocated (.activation a)) (i d : Nat) (c : SlotContent) :
    (s.setContent a i c).readIn a i d = c.readIn d := by
  rw [readIn, content_setContent s a i i c ha, if_pos ⟨rfl, rfl⟩]

/-- All other contents are as before. -/
theorem readIn_beside (h : ¬ (b = a ∧ j = i)) (d : Nat) (c : SlotContent) :
    (s.setContent b j c).readIn a i d = s.readIn a i d := by
  rw [readIn, content, setContent, activation_modifyActivation]
  split
  · rename_i hb
    obtain ⟨rfl, -⟩ := hb
    rw [Activation.content_setContent, if_neg fun hi => h ⟨rfl, hi.symm⟩]
    rfl
  · rfl

/-- What a slot holds after a context has stored a value. -/
def SlotContent.stored (context : Nat) (v : Value) : SlotContent → SlotContent
  | .fanOut vs => .fanOut (vs.write context (some v))
  | _          => .value v

theorem activations_noteWrite (s : Store) (info : SlotInfo) (nonLocal irregular : Bool) :
    (s.noteWrite info nonLocal irregular).activations = s.activations := by
  unfold noteWrite
  split <;> rfl

/-- Setting a content depends on nothing but activations. -/
theorem setContent_congr (h : s₁.activations = s.activations) (b : ActivationId) (j : Nat)
    (c : SlotContent) : (s₁.setContent b j c).activations = (s.setContent b j c).activations := by
  unfold setContent modifyActivation
  dsimp only
  rw [h]

theorem activations_noted (s : Store) (a : ActivationId) (v : Value) :
    (s.noted a v).activations = s.activations ∧ (s.noted a v).contexts = s.contexts := by
  unfold noted
  split <;> exact ⟨rfl, rfl⟩

theorem activations_store (s : Store) (b : ActivationId) (j : Nat) (v : Value) :
    ((store b j v).run s).2.activations
      = (s.setContent b j (SlotContent.stored s.contexts.current v (s.content b j))).activations := by
  rw [store_run]
  cases hc : s.content b j with
  | fanOut vs => rfl
  | empty | value _ => exact setContent_congr (activations_recordWrite s _ j (some v)) b j _

/-- A write replaces one content. -/
theorem activations_write {info : SlotInfo} (hslot : s.slot? (s.layoutOf b) j = some info) (v : Value)
    (nonLocal : Bool) : ((write b j v nonLocal).run.run s).2.activations
      = (s.setContent b j (SlotContent.stored s.contexts.current v (s.content b j))).activations := by
  obtain ⟨hnoted, hcontexts⟩ := activations_noted s b v
  have hstored : ((store b j v).run (s.noted b v)).2.activations
      = (s.setContent b j (SlotContent.stored s.contexts.current v (s.content b j))).activations := by
    rw [activations_store, hcontexts, content_congr hnoted]
    exact setContent_congr hnoted b j _
  rw [write_run, hslot]
  dsimp only
  generalize (store b j v).run (s.noted b v) = result at hstored ⊢
  rcases result with ⟨filled, s₁⟩
  rw [activations_noteWrite]
  split
  · exact (swept_invalidateNames s₁ _ _).activations.trans hstored
  · exact hstored

/-- Emptying replaces one content. -/
theorem activations_empty (hc : s.content b j ≠ .empty) :
    ((empty b j).run s).2.activations = (s.setContent b j (s.emptiedContent b j)).activations := by
  rw [empty_run]
  dsimp only
  rw [activations_recordWrite, if_neg hc]

/-! ## What a context sees -/

/-- An operation of a context, which is entered before. -/
def performIn (s : Store) (p : Nat × Operation) : Store :=
  p.2.perform ((Operation.enterContext p.1).perform s)

/-- The operations that change one entry of a slot, and cleanings. -/
def Operation.changesEntries : Operation → Bool
  | .write .. | .define .. | .assignNonLocal .. | .setActiveBinding .. | .writeInContext .. | .remove ..
  | .cleanFanOut .. => true
  | _ => false

/-- What a context sees of a slot after an operation, from what it has seen before. The slot is one of an
    activation, and has a name; `here` tells whether the operation is one of the context. -/
def Operation.sees (a : ActivationId) (i : Nat) (n : Name) (d : Nat) (here : Bool) (w : Option Value) :
    Operation → Option Value
  | .write b j v _ | .writeInContext b j v     => if b = a ∧ j = i ∧ here then some v else w
  | .define b m v | .assignNonLocal b m v      => if b = a ∧ m = n ∧ here then some v else w
  | .setActiveBinding b m g                    => if b = a ∧ m = n ∧ here then some (.active g) else w
  | .remove b m                                => if b = a ∧ m = n ∧ here then none else w
  | .cleanFanOut b (some cs)                   => if b = a ∧ d ∈ cs then none else w
  | .cleanFanOut b none                        => if b = a ∧ d ≠ primordial then none else w
  | _                                          => w

/-- Whether an operation takes out of slots what other contexts hold. -/
def Operation.cleans : Operation → Bool
  | .cleanFanOut .. => true
  | _               => false

/-- What a context sees after operations of any contexts, one after another. -/
def seesAfter (a : ActivationId) (i : Nat) (n : Name) (d : Nat) (w : Option Value)
    (ops : List (Nat × Operation)) : Option Value :=
  ops.foldl (fun w p => p.2.sees a i n d (p.1 = d) w) w

section Steps

variable (h : s.Converted a i n)

include h

theorem Converted.content_eq : ∃ vs, s.content a i = .fanOut vs := by
  have hfanned : (s.content a i).isFanOut = true := h.fanned
  cases hc : s.content a i with
  | fanOut vs => exact ⟨vs, rfl⟩
  | empty | value _ =>
      rw [hc] at hfanned
      cases hfanned

/-- A write for the current context. -/
theorem Converted.readIn_stored (v : Value) (d : Nat) :
    (s.setContent a i (SlotContent.stored s.contexts.current v (s.content a i))).readIn a i d
      = if d = s.contexts.current then some v else s.readIn a i d := by
  obtain ⟨vs, hc⟩ := h.content_eq
  rw [readIn_replaced (allocated_of_isFannedOut h.fanned), readIn, hc]
  exact vs.read_write s.contexts.current (some v) d

theorem Converted.readIn_write (b : ActivationId) (j : Nat) (v : Value) (nonLocal : Bool) (d : Nat) :
    ((write b j v nonLocal).run.run s).2.readIn a i d
      = if b = a ∧ j = i ∧ d = s.contexts.current then some v else s.readIn a i d := by
  by_cases hhere : b = a ∧ j = i
  · obtain ⟨rfl, rfl⟩ := hhere
    obtain ⟨info, hslot, -⟩ := h.unshared
    rw [readIn_congr (activations_write hslot v nonLocal), h.readIn_stored]
    simp only [true_and]
  · rw [if_neg fun hc => hhere ⟨hc.1, hc.2.1⟩]
    cases hslot : s.slot? (s.layoutOf b) j with
    | none => rw [write_run, hslot]
    | some info => rw [readIn_congr (activations_write hslot v nonLocal), readIn_beside hhere]

/-- Binding the name of the slot writes the slot, and binding another name does not. -/
theorem Converted.readIn_bindName (b : ActivationId) (m : Name) (v : Value) (nonLocal : Bool) (d : Nat) :
    ((bindName b m v nonLocal).run.run s).2.readIn a i d
      = if b = a ∧ m = n ∧ d = s.contexts.current then some v else s.readIn a i d := by
  obtain ⟨henlarges, hactivations, hindex⟩ := findOrAddSlot_spec s (s.layoutOf b) m
  have hmarks : s.Marks (fun _ => True) _ := marks_findOrAddSlot s (s.layoutOf b) m
  have hcurrent : ((findOrAddSlot (s.layoutOf b) m).run s).2.contexts = s.contexts := by
    rw [henlarges.rest]
  have h₁ := h.of_marks hmarks
  have hlayoutOf := congrFun (layoutOf_congr hactivations) a
  rw [bindName_run]
  generalize (findOrAddSlot (s.layoutOf b) m).run s = result at *
  rcases result with ⟨j, s₁⟩
  dsimp only at *
  rw [h₁.readIn_write, hcurrent, readIn_congr hactivations]
  by_cases hb : b = a
  · subst hb
    obtain ⟨info, hslot, -⟩ := h.unshared
    have hj : (s₁.layout (s.layoutOf b)).slotIndex? m = some j := hindex (allocated_of_slot? hslot)
    have hi : (s₁.layout (s.layoutOf b)).slotIndex? n = some i := hlayoutOf ▸ h₁.named
    simp only [Layout.slotIndex?_eq_iff hj hi]
  · simp only [hb, false_and]

/-- Emptying takes out the entry of the current context, and those of others stay. -/
theorem Converted.readIn_empty (b : ActivationId) (j : Nat) (d : Nat) :
    ((empty b j).run s).2.readIn a i d
      = if b = a ∧ j = i ∧ d = s.contexts.current then none else s.readIn a i d := by
  by_cases hhere : b = a ∧ j = i
  · obtain ⟨rfl, rfl⟩ := hhere
    obtain ⟨vs, hc⟩ := h.content_eq
    rw [readIn_congr (activations_empty (by simp [hc])), readIn_replaced (allocated_of_isFannedOut h.fanned),
      readIn, emptiedContent, hc]
    simp only [true_and]
    exact vs.read_clear s.contexts.current d
  · rw [if_neg fun hc => hhere ⟨hc.1, hc.2.1⟩]
    by_cases hc : s.content b j = .empty
    · rw [empty_run]
      dsimp only
      rw [if_pos hc]
      exact readIn_congr (activations_recordWrite s _ j none) a i d
    · rw [readIn_congr (activations_empty hc), readIn_beside hhere]

theorem Converted.readIn_remove (b : ActivationId) (m : Name) (d : Nat) :
    ((remove b m).run s).2.readIn a i d
      = if b = a ∧ m = n ∧ d = s.contexts.current then none else s.readIn a i d := by
  rw [remove_run]
  cases hindex : s.slotOf? b m with
  | none =>
      -- The slot of the name has not been found, so it is not this one.
      rw [if_neg]
      rintro ⟨rfl, rfl, -⟩
      rw [h.named] at hindex
      cases hindex
  | some j =>
      obtain ⟨info, hslot, -⟩ := Layout.slotIndex?_eq_some hindex
      have hslot : s.slot? (s.layoutOf b) j = some info := hslot
      have hswept : ∀ s₁ : Store, ((s₁.noteWrite info false (s₁.activation b).irregular).invalidateNames
          (s.layoutOf b) [m]).activations = s₁.activations := fun s₁ =>
        (swept_invalidateNames _ _ _).activations.trans (activations_noteWrite s₁ _ _ _)
      dsimp only
      rw [hslot]
      dsimp only
      rw [readIn_congr (hswept _), h.readIn_empty]
      by_cases hb : b = a
      · subst hb
        simp only [Layout.slotIndex?_eq_iff hindex h.named]
      · simp only [hb, false_and]

theorem Converted.readIn_writeInContext (b : ActivationId) (j : Nat) (v : Value) (d : Nat) :
    ((writeInContext b j v).run.run s).2.readIn a i d
      = if b = a ∧ j = i ∧ d = s.contexts.current then some v else s.readIn a i d := by
  rw [writeInContext_run]
  by_cases hhere : b = a ∧ j = i
  · obtain ⟨rfl, rfl⟩ := hhere
    obtain ⟨info, hslot, -, -, hmay⟩ := h.unshared
    obtain ⟨vs, hc⟩ := h.content_eq
    have hfanned : (s.content b j).isFanOut = true := h.fanned
    rw [hslot]
    dsimp only
    by_cases hcontext : s.contexts.current = primordial
    · rw [if_pos hcontext]
      exact h.readIn_write b j v false d
    · have hstored := h.readIn_stored v d
      rw [if_neg hcontext, if_pos hmay, if_pos hfanned, contextEntries, hc]
      rw [hc] at hstored
      simp only [true_and]
      exact hstored
  · rw [if_neg fun hc => hhere ⟨hc.1, hc.2.1⟩]
    cases hslot : s.slot? (s.layoutOf b) j with
    | none => rfl
    | some info =>
        have hgive := activations_giveUpSharing s (s.layoutOf b) j info
        dsimp only
        split
        · rw [h.readIn_write, if_neg fun hc => hhere ⟨hc.1, hc.2.1⟩]
        · split
          · rw [readIn_beside hhere]
            split
            · rfl
            · exact readIn_congr hgive a i d
          · rfl

theorem Converted.readIn_cleanFanOut (b : ActivationId) (contexts : Option (List Nat)) (d : Nat) :
    (s.cleanFanOut b contexts).readIn a i d
      = (Operation.cleanFanOut b contexts).sees a i n d true (s.readIn a i d) := by
  obtain ⟨vs, hc⟩ := h.content_eq
  rw [readIn, content_cleanFanOut, readIn]
  by_cases hb : a = b
  · subst hb
    rw [if_pos rfl, hc]
    cases contexts with
    | some cs =>
        simp only [Operation.sees, true_and]
        exact vs.read_foldl_clear cs d
    | none =>
        simp only [Operation.sees, true_and, ne_eq, ite_not]
        exact vs.read_clearOthers d
  · have hb' : b ≠ a := Ne.symm hb
    rw [if_neg hb]
    cases contexts <;> simp only [Operation.sees, hb', false_and, if_false]

end Steps

/-- Entering a context changes nothing that slots hold. -/
theorem Converted.entered (h : s.Converted a i n) (context : Nat) :
    ((Operation.enterContext context).perform s).Converted a i n :=
  h.of_marks (marks_perform h.furnished (.enterContext context) fun _ _ => trivial)

/-- **One operation of one context**: what each context sees after it is told from what it has seen before. -/
theorem Converted.readIn_performIn (h : s.Converted a i n) (context : Nat) {op : Operation}
    (hop : op.changesEntries = true) (d : Nat) :
    (s.performIn (context, op)).readIn a i d = op.sees a i n d (context = d) (s.readIn a i d) := by
  have hentered := h.entered context
  have hsame : ((Operation.enterContext context).perform s).readIn a i d = s.readIn a i d := rfl
  have hcurrent : ((Operation.enterContext context).perform s).contexts.current = context := rfl
  show (op.perform ((Operation.enterContext context).perform s)).readIn a i d = _
  generalize (Operation.enterContext context).perform s = s₁ at *
  cases op with
  | write b j v nonLocal =>
      rw [Operation.perform, hentered.readIn_write, hcurrent, hsame]
      simp only [Operation.sees, decide_eq_true_eq, eq_comm (a := d)]
  | writeInContext b j v =>
      rw [Operation.perform, hentered.readIn_writeInContext, hcurrent, hsame]
      simp only [Operation.sees, decide_eq_true_eq, eq_comm (a := d)]
  | define b m v | assignNonLocal b m v =>
      have hbound := fun nonLocal => hentered.readIn_bindName b m v nonLocal d
      rw [hcurrent, hsame] at hbound
      simp only [Operation.sees, decide_eq_true_eq, eq_comm (b := d)]
      exact hbound _
  | setActiveBinding b m g =>
      have hbound := hentered.readIn_bindName b m (.active g) false d
      rw [hcurrent, hsame] at hbound
      simp only [Operation.sees, decide_eq_true_eq, eq_comm (b := d)]
      exact hbound
  | remove b m =>
      rw [Operation.perform, hentered.readIn_remove, hcurrent, hsame]
      simp only [Operation.sees, decide_eq_true_eq, eq_comm (a := d)]
  | cleanFanOut b contexts =>
      rw [Operation.perform, hentered.readIn_cleanFanOut, hsame]
      cases contexts <;> rfl
  | _ => cases hop

/-! ## Converting -/

/-- A write for another context than the first is accepted for slots that can be converted. -/
theorem writeInContext_ok (hcontext : s.contexts.current ≠ primordial) {v : Value}
    (hok : ((writeInContext a i v).run.run s).1 = .ok ()) :
    ∃ info, s.slot? (s.layoutOf a) i = some info ∧ info.mayFanOut = true := by
  rw [writeInContext, requireSlot_bind_run] at hok
  cases hslot : s.slot? (s.layoutOf a) i with
  | none =>
      rw [hslot] at hok
      cases hok
  | some info =>
      rw [hslot] at hok
      dsimp only at hok
      rw [run_get_bind] at hok
      cases hmay : info.mayFanOut with
      | true => exact ⟨info, rfl, hmay⟩
      | false =>
          simp only [hcontext, hmay, if_false, if_true, Bool.not_false] at hok
          cases hok

/-- **Converting**: a context other than the first writes a slot that all have shared. The first context sees what
    it has seen before, the one that writes sees the value, and no other sees anything. -/
theorem readIn_converting (hf : s.Furnished) (ha : s.Allocated (.activation a)) (hplain : s.isFannedOut a i = false)
    (hcontext : s.contexts.current ≠ primordial) {v : Value}
    (hok : ((writeInContext a i v).run.run s).1 = .ok ()) :
    ((writeInContext a i v).run.run s).2.isFannedOut a i = true
      ∧ ∀ d, ((writeInContext a i v).run.run s).2.readIn a i d
        = if d = s.contexts.current then some v else if d = primordial then s.readIn a i primordial else none := by
  obtain ⟨info, hslot, hmay⟩ := writeInContext_ok hcontext hok
  obtain ⟨-, hgive, -⟩ : s.Marks (fun _ => True) _ ∧ _ := marks_giveUpSharing hf hslot
  have hplain' : (s.content a i).isFanOut = false := hplain
  have hactivations : ((writeInContext a i v).run.run s).2.activations
      = (s.setContent a i (.fanOut (s.contextEntries a i v))).activations := by
    rw [writeInContext_run, hslot]
    dsimp only
    rw [if_neg hcontext, if_pos hmay, hplain', if_neg Bool.false_ne_true]
    apply setContent_congr
    exact hgive
  constructor
  · show (((writeInContext a i v).run.run s).2.content a i).isFanOut = true
    rw [content_congr hactivations, content_setContent s a i i _ ha, if_pos ⟨rfl, rfl⟩]
    rfl
  · intro d
    rw [readIn_congr hactivations, readIn_replaced ha]
    show (s.contextEntries a i v).read d = _
    have hroom : ContextValues.read (Array.replicate (s.contextRoom s.contexts.current) none) d = none := by
      unfold ContextValues.read
      rw [Array.getElem?_replicate]
      split <;> rfl
    unfold contextEntries
    cases hc : s.content a i with
    | fanOut vs =>
        rw [hc] at hplain'
        cases hplain'
    | empty | value _ =>
        dsimp only
        rw [ContextValues.read_write, ContextValues.read_write, hroom, readIn, hc]

/-! ## Isolation -/

theorem Converted.performIn (h : s.Converted a i n) (p : Nat × Operation) : (s.performIn p).Converted a i n := by
  have hentered := h.entered p.1
  exact hentered.of_marks (marks_perform hentered.furnished p.2 fun _ _ => trivial)

/-- What a context sees after a run of operations is told from what it has seen before. The induction is on the
    operations; the slot stays converted, so the next one finds it as this one has. -/
theorem Converted.readIn_foldl (h : s.Converted a i n) {ops : List (Nat × Operation)}
    (hops : ∀ p ∈ ops, p.2.changesEntries = true) (d : Nat) :
    (ops.foldl Store.performIn s).readIn a i d = seesAfter a i n d (s.readIn a i d) ops := by
  induction ops generalizing s with
  | nil => rfl
  | cons p ops ih =>
      obtain ⟨hp, hrest⟩ := List.forall_mem_cons.1 hops
      rw [List.foldl_cons, ih (h.performIn p) hrest, h.readIn_performIn p.1 hp]
      rfl

/-- Nothing that another context does shows, cleaning apart. -/
theorem seesAfter_filter (a : ActivationId) (i : Nat) (n : Name) (d : Nat) (w : Option Value)
    (ops : List (Nat × Operation)) :
    seesAfter a i n d w (ops.filter fun p => p.1 = d || p.2.cleans) = seesAfter a i n d w ops := by
  induction ops generalizing w with
  | nil => rfl
  | cons p ops ih =>
      have hcons : seesAfter a i n d w (p :: ops)
          = seesAfter a i n d (p.2.sees a i n d (p.1 = d) w) ops := rfl
      rw [List.filter_cons]
      split
      · rw [hcons, ← ih]
        rfl
      · rename_i hfar
        simp only [Bool.or_eq_true, decide_eq_true_eq, not_or] at hfar
        obtain ⟨hcontext, hcleans⟩ := hfar
        rw [hcons, ih]
        apply congrArg (seesAfter a i n d · ops)
        rcases p with ⟨context, op⟩
        cases op <;> simp_all [Operation.sees, Operation.cleans]

/-- **Contexts are isolated on a converted slot.** A program comes to a store in any way, and a slot holds an entry
    per context there. Operations write, bind, empty and clean it, each in a context of its own. What a context
    sees then is what it has seen before, with what has been written or removed since in this context, and nothing
    after it has been cleaned; it is what the context would see if no other context had done anything but clean.
    The slot stays so through all that a program does later: its guard has fallen, and it is not tracked. A slot
    that has been shared is converted by a write for another context than the first, which sees what it saw. -/
theorem contexts_isolated {names : List String} (h : AnyRun (.new names) s) (a : ActivationId) (i : Nat) :
    (s.isFannedOut a i = true →
      (∃ n, s.slotOf? a n = some i ∧ ∀ ops : List (Nat × Operation), (∀ p ∈ ops, p.2.changesEntries = true) →
        ∀ d, (ops.foldl Store.performIn s).readIn a i d = seesAfter a i n d (s.readIn a i d) ops
          ∧ (ops.foldl Store.performIn s).readIn a i d
            = ((ops.filter fun p => p.1 = d || p.2.cleans).foldl Store.performIn s).readIn a i d)
      ∧ ∀ s₁, AnyRun s s₁ → s₁.isFannedOut a i = true ∧ s₁.Unshared (s₁.layoutOf a) i)
    ∧ (s.Allocated (.activation a) → s.isFannedOut a i = false → s.contexts.current ≠ primordial → ∀ v,
      ((writeInContext a i v).run.run s).1 = .ok () →
        ((writeInContext a i v).run.run s).2.isFannedOut a i = true
        ∧ ∀ d, ((writeInContext a i v).run.run s).2.readIn a i d
          = if d = s.contexts.current then some v
            else if d = primordial then s.readIn a i primordial else none) := by
  refine ⟨fun hfanned => ?_, fun ha hplain hcontext v hok =>
    readIn_converting ((h.marks (furnished_new names)).furnished (furnished_new names)) ha hplain hcontext hok⟩
  obtain ⟨n, hconverted⟩ := converted_of_isFannedOut h hfanned
  refine ⟨⟨n, hconverted.named, fun ops hops d => ?_⟩, fun s₁ hrun => ?_⟩
  · have hall := hconverted.readIn_foldl hops d
    have hfiltered : ∀ p ∈ ops.filter fun p => p.1 = d || p.2.cleans, _ := fun p hp =>
      hops p (List.mem_of_mem_filter hp)
    have hpurged := hconverted.readIn_foldl hfiltered d
    rw [seesAfter_filter] at hpurged
    exact ⟨hall, hall.trans hpurged.symm⟩
  · have hlater := hconverted.of_marks (hrun.marks hconverted.furnished)
    exact ⟨hlater.fanned, hlater.unshared⟩

/-- A module's variable is written for one context, which converts it. Another context binds it and removes it, and
    the values of a third are cleaned. -/
theorem isolated_of_converted :
    let ops : List Operation := [.newLayout "m" .singleton {}, .newScope ⟨0⟩ none 0,
      .define ⟨0⟩ ⟨2⟩ (.int 1), .registerContexts 3, .enterContext 1]
    let s := ops.foldl Operation.perform (.new ["x"])
    let s₁ := (Operation.writeInContext ⟨0⟩ 0 (.int 2)).perform s
    let later : List (Nat × Operation) := [(2, .define ⟨0⟩ ⟨2⟩ (.int 3)), (3, .write ⟨0⟩ 0 (.int 4) false),
      (2, .remove ⟨0⟩ ⟨2⟩), (0, .cleanFanOut ⟨0⟩ (some [3]))]
    s₁.isFannedOut ⟨0⟩ 0 = true ∧ s₁.readIn ⟨0⟩ 0 primordial = some (.int 1)
      ∧ (later.foldl Store.performIn s₁).readIn ⟨0⟩ 0 primordial = some (.int 1)
      ∧ (later.foldl Store.performIn s₁).readIn ⟨0⟩ 0 1 = some (.int 2)
      ∧ (later.foldl Store.performIn s₁).readIn ⟨0⟩ 0 2 = none := by
  intro ops s s₁ later
  have hrun : AnyRun (.new ["x"]) s := ScopeRun.of_allFit (by decide +kernel)
  have hrun₁ : AnyRun (.new ["x"]) s₁ := hrun.tail (.operate (.writeInContext ⟨0⟩ 0 (.int 2)) rfl)
  obtain ⟨hfanned, hsees⟩ := (contexts_isolated hrun ⟨0⟩ 0).2 (by decide +kernel) (by decide +kernel)
    (by decide +kernel) (.int 2) (by decide +kernel)
  obtain ⟨⟨n, hn, hlater⟩, -⟩ := (contexts_isolated hrun₁ ⟨0⟩ 0).1 hfanned
  obtain rfl : n = ⟨2⟩ := by
    have hx : s₁.slotOf? ⟨0⟩ ⟨2⟩ = some 0 := by decide +kernel
    exact Layout.slotIndex?_inj hn hx
  have hops : ∀ p ∈ later, p.2.changesEntries = true := by decide
  have hfirst : s₁.readIn ⟨0⟩ 0 primordial = some (.int 1) :=
    (hsees primordial).trans (by decide +kernel)
  have hwriter : s₁.readIn ⟨0⟩ 0 1 = some (.int 2) := (hsees 1).trans (by decide +kernel)
  refine ⟨hfanned, hfirst, ?_, ?_, ?_⟩
  · rw [(hlater later hops primordial).1, hfirst]
    rfl
  · rw [(hlater later hops 1).1, hwriter]
    rfl
  · rw [(hlater later hops 2).1]
    rfl

end Store

end ScopeCall
