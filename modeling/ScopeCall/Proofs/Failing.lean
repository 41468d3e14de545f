import ScopeCall.Proofs.Converting
import ScopeCall.Proofs.Entering

/-!
# `ScopeCall.Proofs.Failing` — operations that end in a fault

An operation on scopes looks at what it is passed before it changes anything, so one that ends in a fault has
changed nothing. Making an activation is the exception. The layout is linked first, and only then is it found
to have an activation that is alive; the link stays, under a parent in which no activation of the layout is
nested.

## Contents
- **Faults.** `Operation.fault?`, and runs that change nothing when they fail.
- **Checks.** Operations that check once, before they change anything.
- **Every slot.** `fanOutAll` checks each slot again, and finds it there.
- **New scopes.** `Store.LinksTaken`: the layout is linked before it turns out to be taken.
- **Operations.** `fault_changes_nothing`, and in `fault_leaves_link` a link that is left behind.
-/

namespace ScopeCall

namespace Store

variable {α β : Type} {s s₁ : Store} {a : ActivationId} {l : LayoutId} {slot : Nat}

/-! ## Faults -/

/-- The fault that a run has ended in. -/
def faultOf : Except Fault α × Store → Option Fault
  | (.error e, _) => some e
  | (.ok _, _)    => none

namespace Operation

/-- The fault that an operation ends in. -/
def fault? (s : Store) : Operation → Option Fault
  | .initializeEnclosing l parent => faultOf ((Store.initializeEnclosing l parent).run.run s)
  | .newScope l enclosing depth => faultOf ((Store.newScope l enclosing depth).run.run s)
  | .define a n v => faultOf ((Store.define a n v).run.run s)
  | .assignNonLocal a n v => faultOf ((Store.assignNonLocal a n v).run.run s)
  | .setActiveBinding a n g => faultOf ((Store.setActiveBinding a n g).run.run s)
  | .write a slot v nonLocal => faultOf ((Store.write a slot v nonLocal).run.run s)
  | .setEnclosing a parent => faultOf ((Store.setEnclosing a parent).run.run s)
  | .attach a inserted => faultOf ((Store.attach a inserted).run.run s)
  | .detachEnclosing a => faultOf ((Store.detachEnclosing a).run.run s)
  | .writeInContext a slot v => faultOf ((Store.writeInContext a slot v).run.run s)
  | .fanOutSlot a slot contexts replicate =>
    faultOf ((Store.fanOutSlot a slot contexts replicate).run.run s)
  | .fanOutAll a contexts replicate => faultOf ((Store.fanOutAll a contexts replicate).run.run s)
  -- The rest always succeed.
  | .newLayout .. | .relink .. | .findOrAddSlot .. | .invalidateNames .. | .invalidateAll _ | .remove ..
  | .markIrregular _ | .newCache _ | .resolve .. | .cachedRead .. | .registerContexts _
  | .enterContext _ | .leaveContext _ | .cleanFanOut .. => none

end Operation

/-- A run that ends in a fault changes nothing. -/
def Harmless (act : FaultM α) (s : Store) : Prop :=
  faultOf (act.run.run s) ≠ none → (act.run.run s).2 = s

theorem harmless_of_ok {act : FaultM α} {x : α} (h : (act.run.run s).1 = .ok x) : Harmless act s := by
  intro hfault
  rcases hrun : act.run.run s with ⟨e | y, s₁⟩ <;> rw [hrun] at h hfault
  · exact absurd h (by simp)
  · exact absurd rfl hfault

/-- After a run that has succeeded, the next begins where that has led. -/
theorem run_bind_ok {act : FaultM β} {x : β} (h : (act.run.run s).1 = .ok x) (f : β → FaultM α) :
    (act >>= f).run.run s = (f x).run.run (act.run.run s).2 := by
  rw [run_bind]
  rcases hrun : act.run.run s with ⟨e | y, s₁⟩ <;> rw [hrun] at h
  · exact absurd h (by simp)
  · rw [Except.ok.inj h]

theorem harmless_of_store {act : FaultM α} (h : (act.run.run s).2 = s) : Harmless act s := fun _ => h

/-- What is done after a slot has been found does the harm, if any. -/
theorem harmless_requireSlot_bind {f : SlotInfo → FaultM α} (h : ∀ info, Harmless (f info) s) :
    Harmless (requireSlot a slot >>= f) s := by
  unfold Harmless
  rw [requireSlot_bind_run]
  cases s.slot? (s.layoutOf a) slot with
  | none => exact fun _ => rfl
  | some info => exact h info

theorem harmless_requireSingleton_bind {f : Unit → FaultM α} (h : Harmless (f ()) s) :
    Harmless (requireSingleton a >>= f) s := by
  unfold Harmless
  rw [requireSingleton_bind_run]
  split
  · exact h
  · exact fun _ => rfl

/-! ## Checks -/

theorem harmless_initializeEnclosing (s : Store) (l : LayoutId) (parent : Option LayoutId) :
    Harmless (initializeEnclosing l parent) s := by
  unfold Harmless
  rw [initializeEnclosing_run]
  split
  · exact fun h => absurd rfl h
  · split <;> exact fun _ => rfl

theorem write_ok {info : SlotInfo} (hslot : s.slot? (s.layoutOf a) slot = some info) (v : Value)
    (nonLocal : Bool) : ((write a slot v nonLocal).run.run s).1 = .ok () := by
  rw [write_run, hslot]
  rfl

theorem harmless_write (s : Store) (a : ActivationId) (slot : Nat) (v : Value) (nonLocal : Bool) :
    Harmless (write a slot v nonLocal) s := by
  cases hslot : s.slot? (s.layoutOf a) slot with
  | none =>
      refine harmless_of_store ?_
      rw [write_run, hslot]
  | some info => exact harmless_of_ok (write_ok hslot v nonLocal)

theorem harmless_setEnclosing (s : Store) (a : ActivationId) (parent : Option ActivationId) :
    Harmless (setEnclosing a parent) s := harmless_requireSingleton_bind (harmless_of_ok rfl)

/-- What is passed to an operation on links is looked at once, before any link is changed. -/
theorem harmless_attach (s : Store) (a inserted : ActivationId) : Harmless (attach a inserted) s := by
  unfold Harmless
  rw [attach, run_get_bind, run_bind, insertEnclosing_run]
  cases s.parent (s.layoutOf a) with
  | none => exact fun _ => rfl
  | some old => exact fun h => absurd rfl h

theorem harmless_detachEnclosing (s : Store) (a : ActivationId) : Harmless (detachEnclosing a) s := by
  unfold Harmless
  rw [detachEnclosing, run_get_bind, run_bind, removeEnclosing_run]
  cases s.parent (s.layoutOf a) with
  | none => exact fun _ => rfl
  | some old =>
      dsimp only
      rw [run_get_bind, run_modify_bind]
      split
      · exact fun h => absurd rfl h
      · exact fun h => absurd rfl h

theorem harmless_writeInContext (s : Store) (a : ActivationId) (slot : Nat) (v : Value) :
    Harmless (writeInContext a slot v) s := by
  unfold writeInContext
  refine harmless_requireSlot_bind fun info => ?_
  unfold Harmless
  rw [run_get_bind]
  dsimp only
  split
  · exact harmless_write s a slot v false
  · split
    · exact fun _ => rfl
    · split <;> exact fun h => absurd rfl h

/-- A slot that is there, of a layout with one activation, can be prepared. -/
theorem fanOutSlot_ok {info : SlotInfo} (hk : (s.layout (s.layoutOf a)).kind.isSingleton = true)
    (hslot : s.slot? (s.layoutOf a) slot = some info) (contexts : List Nat) (replicate : Bool) :
    ∃ x, ((fanOutSlot a slot contexts replicate).run.run s).1 = .ok x := by
  rw [fanOutSlot, requireSingleton_bind_run, if_pos hk, requireSlot_bind_run, hslot]
  dsimp only
  rw [run_get_bind]
  split
  · exact ⟨false, rfl⟩
  · exact ⟨true, rfl⟩

theorem harmless_fanOutSlot (s : Store) (a : ActivationId) (slot : Nat) (contexts : List Nat)
    (replicate : Bool) : Harmless (fanOutSlot a slot contexts replicate) s := by
  by_cases hk : (s.layout (s.layoutOf a)).kind.isSingleton = true
  · cases hslot : s.slot? (s.layoutOf a) slot with
    | none =>
        refine harmless_of_store ?_
        rw [fanOutSlot_run, if_pos hk, hslot]
    | some info =>
        obtain ⟨x, hok⟩ := fanOutSlot_ok hk hslot contexts replicate
        exact harmless_of_ok hok
  · refine harmless_of_store ?_
    rw [fanOutSlot_run, if_neg hk]

/-! ## Every slot -/

/-- A series of runs succeeds if each succeeds where the ones before it have led. -/
theorem mapM_ok {P : Store → Prop} {f : β → FaultM α} {bs : List β}
    (hf : ∀ b ∈ bs, ∀ s, P s → (∃ x, ((f b).run.run s).1 = .ok x) ∧ P ((f b).run.run s).2) {s : Store}
    (h : P s) : ∃ xs, ((bs.mapM f).run.run s).1 = .ok xs := by
  induction bs generalizing s with
  | nil => exact ⟨[], rfl⟩
  | cons b bs ih =>
      obtain ⟨⟨x, hok⟩, hnext⟩ := hf b List.mem_cons_self s h
      obtain ⟨xs, hrest⟩ := ih (fun b hb => hf b (List.mem_cons_of_mem _ hb)) hnext
      refine ⟨x :: xs, ?_⟩
      rw [List.mapM_cons, run_bind_ok hok, run_bind_ok hrest]
      rfl

/-- Preparing a slot takes no slot away, and leaves the kind of the layout. -/
theorem keeps_fanOutSlot (hs : s.Sound) (a : ActivationId) (slot : Nat) (contexts : List Nat)
    (replicate : Bool) (k : LayoutId) :
    (((fanOutSlot a slot contexts replicate).run.run s).2.layout k).kind = (s.layout k).kind
      ∧ (((fanOutSlot a slot contexts replicate).run.run s).2.layout k).slots.size
        = (s.layout k).slots.size := by
  rw [fanOutSlot_run]
  split
  · cases hslot : s.slot? (s.layoutOf a) slot with
    | none => exact ⟨rfl, rfl⟩
    | some info =>
        dsimp only
        split
        · exact ⟨rfl, rfl⟩
        · have hre := retracks_giveUpSharing hs.wellFormed hslot
          exact ⟨(congrArg Layout.kind (hre.layout k) : _), hre.size k⟩
  · exact ⟨rfl, rfl⟩

/-- Once the layout is known to admit one activation, no slot is missing. -/
theorem harmless_fanOutAll (hs : s.Sound) (ha : Ref.activation a ∈ s.roots) (contexts : List Nat)
    (replicate : Bool) : Harmless (fanOutAll a contexts replicate) s := by
  unfold fanOutAll Harmless
  rw [requireSingleton_bind_run]
  split
  · rename_i hk
    -- What the slots before have left: the layout of the activation has its kind, and all its slots.
    let P : Store → Prop := fun s₁ => s₁.Sound ∧ Ref.activation a ∈ s₁.roots
      ∧ (s₁.layout (s₁.layoutOf a)).kind.isSingleton = true
      ∧ (s₁.layout (s₁.layoutOf a)).slots.size = (s.layout (s.layoutOf a)).slots.size
    have hall : ∃ xs, (((List.range (s.layout (s.layoutOf a)).slots.size).mapM fun slot =>
        fanOutSlot a slot contexts replicate).run.run s).1 = .ok xs := by
      refine mapM_ok (P := P) (fun i hi s₁ ⟨hs₁, ha₁, hk₁, hsize⟩ => ?_) ⟨hs, ha, hk, rfl⟩
      obtain ⟨info, hslot⟩ : ∃ info, s₁.slot? (s₁.layoutOf a) i = some info :=
        ⟨_, Array.getElem?_eq_some_iff.2 ⟨hsize ▸ List.mem_range.1 hi, rfl⟩⟩
      have hadv := advances_fanOutSlot hs₁ ha₁ i contexts replicate
      have hkeeps := keeps_fanOutSlot hs₁ a i contexts replicate
      refine ⟨fanOutSlot_ok hk₁ hslot contexts replicate, hadv.sound hs₁, hadv.mem_roots ha₁, ?_, ?_⟩
      · rw [layoutOf_fanOutSlot hs₁, (hkeeps _).1, hk₁]
      · rw [layoutOf_fanOutSlot hs₁, (hkeeps _).2, hsize]
    obtain ⟨xs, hok⟩ := hall
    rw [run_get_bind]
    dsimp only
    rw [run_bind_ok hok]
    exact fun h => absurd rfl h
  · exact fun _ => rfl

/-- Binding a name makes the slot that it then writes. -/
theorem harmless_bindName (hs : s.Sound) (ha : Ref.activation a ∈ s.roots) (n : Name) (v : Value)
    (nonLocal : Bool) : Harmless (bindName a n v nonLocal) s := by
  have hl := hs.wellFormed.layoutOf ha
  obtain ⟨-, hactivations, hindex⟩ := findOrAddSlot_spec s (s.layoutOf a) n
  obtain ⟨info, hslot, -⟩ := Layout.slotIndex?_eq_some (hindex hl)
  unfold Harmless bindName
  rw [run_get_bind, run_lift_bind]
  generalize (findOrAddSlot (s.layoutOf a) n).run s = result at hactivations hslot ⊢
  have hlayoutOf := congrFun (layoutOf_congr hactivations) a
  rw [run_bind_ok (write_ok (hlayoutOf ▸ hslot) v nonLocal)]
  exact fun h => absurd rfl h

/-! ## New scopes -/

/-- An activation is asked for of a layout that has one and no parent alive, nested in another scope. -/
def LinksTaken (s : Store) : Operation → Prop
  | .newScope l enclosing _ => s.parent l = none ∧ enclosing ≠ none
    ∧ (s.layout l).kind.isSingleton = true ∧ (s.singletonActivation l).isSome = true
  | _ => False

/-- A layout refuses a further activation, whose number is used up. -/
theorem enter_fault (enclosing : Option ActivationId) (depth : Nat)
    (h : faultOf ((enter l enclosing depth).run.run s) ≠ none) :
    (s.layout l).kind.isSingleton = true ∧ (s.singletonActivation l).isSome = true
      ∧ ((enter l enclosing depth).run.run s).2 = s.takeSerial := by
  rw [enter_run] at h ⊢
  split at h
  · rename_i hk
    split at h
    · rename_i htaken
      rw [if_pos hk, if_pos htaken]
      exact ⟨hk, htaken, rfl⟩
    · exact absurd rfl h
  · exact absurd rfl h

/-- The links of layouts keep nothing alive. -/
theorem live_linked (s : Store) (l p : LayoutId) : (s.linked l p).Live = s.Live := by
  have hw := s.rewires_linked l p
  have hrefs : ∀ q, (s.linked l p).refs q = s.refs q := by
    intro q
    cases q with
    | layout k =>
        by_cases hk : s.Allocated (.layout k)
        · rw [refs_layout hk, refs_layout ((hw.allocated_layout k).2 hk), hw.layout k]
          rfl
        · rw [refs_of_not_allocated hk, refs_of_not_allocated fun hc => hk ((hw.allocated_layout k).1 hc)]
    | _ => rfl
  unfold Live Supported
  simp only [hrefs]
  rfl

/-- A layout has the same activation after a layout has been linked. -/
theorem singletonActivation_linked (hs : s.Sound) {p : LayoutId} (hl : s.Allocated (.layout l))
    (hp : s.Allocated (.layout p)) (k : LayoutId) :
    (s.linked l p).singletonActivation k = s.singletonActivation k := by
  have hw := s.rewires_linked l p
  have hwf : (s.linked l p).WellFormed := ((Spares.refl s).linked hl hp).leads.wellFormed hs.wellFormed
  have hclaim : ((s.linked l p).layout k).singleton = (s.layout k).singleton := by rw [hw.layout k]
  unfold singletonActivation
  rw [hclaim]
  cases hb : (s.layout k).singleton with
  | none => rfl
  | some b =>
      have hba : s.Allocated (.activation b) := hs.wellFormed.weak k _ (by simp [Layout.weakRefs, hb])
      have hlive : (s.linked l p).isLive (.activation b) = s.isLive (.activation b) := by
        rw [Bool.eq_iff_iff, isLive_iff hs.wellFormed hba,
          isLive_iff hwf ((hw.allocated_activation b).2 hba), live_linked]
      rw [Option.bind_some, Option.bind_some, upgradeActivation, upgradeActivation, hlive]

/-- A layout without a parent alive is linked to that of the scope around the new one. -/
theorem newScope_linked (hs : s.Sound) {b : ActivationId} (hb : Ref.activation b ∈ s.roots)
    (hparent : s.parent l = none) (depth : Nat) : (newScope l (some b) depth).run.run s
      = (enter l (some b) depth).run.run (s.linked l (s.layoutOf b)) := by
  have hlive := (live_of_mem_roots hb).layoutOf hs.wellFormed
  have hnot : ¬ s.isEnclosedBy l ((some b).map s.layoutOf) = true := by
    intro halong
    have hlinked : (s.layout l).enclosing = some (s.layoutOf b) := by simpa [isEnclosedBy] using halong
    rw [parent, hlinked, Option.bind_some, upgradeLayout,
      if_pos ((isLive_iff hs.wellFormed (hlive.allocated hs.wellFormed)).2 hlive)] at hparent
    exact absurd hparent (Option.some_ne_none _)
  rw [newScope_run, if_neg hnot, initializeEnclosing_run, hparent]
  rfl

/-- **A layout that is taken is linked before it is refused**; in every other case nothing has changed. -/
theorem newScope_fault (hs : s.Sound) {enclosing : Option ActivationId} (depth : Nat)
    (hl : Ref.layout l ∈ s.roots) (he : ∀ b, enclosing = some b → Ref.activation b ∈ s.roots) :
    (faultOf ((newScope l enclosing depth).run.run s) ≠ none →
      ¬ s.LinksTaken (.newScope l enclosing depth) →
        ((newScope l enclosing depth).run.run s).2
          = { s with nextSerial := ((newScope l enclosing depth).run.run s).2.nextSerial })
    ∧ ∀ b, enclosing = some b → s.LinksTaken (.newScope l enclosing depth) →
        (newScope l enclosing depth).run.run s
          = (.error (.singletonTaken (s.layout l).label), (s.linked l (s.layoutOf b)).takeSerial) := by
  have hla := hs.wellFormed.roots _ hl
  have hpa : ∀ b, enclosing = some b → s.Allocated (.layout (s.layoutOf b)) := fun b hb =>
    hs.wellFormed.layoutOf (he b hb)
  constructor
  · intro hfault hnot
    rcases newScope_cases s l enclosing depth with hrun | ⟨e, hrun⟩ | ⟨b, rfl, hparent, hrun⟩
    · rw [hrun] at hfault ⊢
      rw [(enter_fault enclosing depth hfault).2.2]
      rfl
    · rw [hrun]
    · rw [hrun] at hfault
      obtain ⟨hk, htaken, -⟩ := enter_fault (some b) depth hfault
      rw [(s.rewires_linked l (s.layoutOf b)).layout l] at hk
      rw [singletonActivation_linked hs hla (hpa b rfl)] at htaken
      exact absurd ⟨hparent, by simp, hk, htaken⟩ hnot
  · rintro b rfl ⟨hparent, -, hk, htaken⟩
    have hsame := (s.rewires_linked l (s.layoutOf b)).layout l
    have hkind : ((s.linked l (s.layoutOf b)).layout l).kind = (s.layout l).kind := by rw [hsame]
    have hlabel : ((s.linked l (s.layoutOf b)).layout l).label = (s.layout l).label := by rw [hsame]
    rw [newScope_linked hs (he b rfl) hparent, enter_run, hkind, if_pos hk,
      singletonActivation_linked hs hla (hpa b rfl), if_pos htaken, hlabel]

/-! ## Operations -/

/-- An operation other than making an activation changes nothing when it fails. -/
theorem perform_of_fault (hs : s.Sound) {op : Operation} (h : ∀ r ∈ op.operands, r ∈ s.roots)
    (hother : ∀ l enclosing depth, op ≠ .newScope l enclosing depth) (hfault : op.fault? s ≠ none) :
    op.perform s = s := by
  cases op with
  | newScope l enclosing depth => exact absurd rfl (hother l enclosing depth)
  | initializeEnclosing l parent => exact harmless_initializeEnclosing s l parent hfault
  | define a n v | assignNonLocal a n v => exact harmless_bindName hs (h _ List.mem_cons_self) n v _ hfault
  | setActiveBinding a n g => exact harmless_bindName hs (h _ List.mem_cons_self) n _ false hfault
  | write a slot v nonLocal => exact harmless_write s a slot v nonLocal hfault
  | setEnclosing a parent => exact harmless_setEnclosing s a parent hfault
  | attach a inserted => exact harmless_attach s a inserted hfault
  | detachEnclosing a => exact harmless_detachEnclosing s a hfault
  | writeInContext a slot v => exact harmless_writeInContext s a slot v hfault
  | fanOutSlot a slot contexts replicate => exact harmless_fanOutSlot s a slot contexts replicate hfault
  | fanOutAll a contexts replicate =>
      exact harmless_fanOutAll hs (h _ List.mem_cons_self) contexts replicate hfault
  | _ => exact absurd rfl hfault

/-- **Failing operations change nothing**, but for the number of the next activation, unless an activation
    is asked for of a layout that is taken and has no parent alive. That is refused as well, and leaves the
    layout linked to the parent, and listed there as a child. -/
theorem fault_changes_nothing (h : Reachable s) {op : Operation} (hheld : ∀ r ∈ op.operands, r ∈ s.roots) :
    (op.fault? s ≠ none → ¬ s.LinksTaken op →
      op.perform s = { s with nextSerial := (op.perform s).nextSerial })
    ∧ ∀ l b depth, op = .newScope l (some b) depth → s.LinksTaken op →
      op.fault? s = some (.singletonTaken (s.layout l).label)
        ∧ op.perform s = (s.linked l (s.layoutOf b)).takeSerial := by
  have hs := h.sound
  constructor
  · intro hfault hnot
    by_cases hscope : ∃ l enclosing depth, op = .newScope l enclosing depth
    · obtain ⟨l, enclosing, depth, rfl⟩ := hscope
      obtain ⟨hl, he⟩ := held_optional hheld
      have hsame := (newScope_fault hs depth hl he).1 hfault hnot
      rw [Operation.perform]
      rw [Operation.fault?] at hfault
      generalize (newScope l enclosing depth).run.run s = result at hfault hsame ⊢
      rcases result with ⟨e | a, s₁⟩
      · exact hsame
      · exact absurd rfl hfault
    · rw [perform_of_fault hs hheld (fun l enclosing depth hop => hscope ⟨l, enclosing, depth, hop⟩) hfault]
  · rintro l b depth rfl htaken
    obtain ⟨hl, he⟩ := held_optional hheld
    have hrun := (newScope_fault hs depth hl he).2 b rfl htaken
    rw [Operation.fault?, Operation.perform, hrun]
    exact ⟨rfl, rfl⟩

/-- A scope that has no parent is to have one inserted: that is refused, and everything is as it was. -/
theorem nothing_changed_by_attach :
    let ops : List Operation := [.newLayout "g" .singleton {}, .newScope ⟨0⟩ none 0,
      .newLayout "m" .singleton {}, .newScope ⟨1⟩ none 0]
    let s := ops.foldl Operation.perform (.new ["x"])
    let op := Operation.attach ⟨0⟩ ⟨1⟩
    Reachable s ∧ (∀ r ∈ op.operands, r ∈ s.roots) ∧ op.fault? s = some (.noEnclosingLayout "g")
      ∧ ¬ s.LinksTaken op ∧ op.perform s = { s with nextSerial := (op.perform s).nextSerial } := by
  intro ops s op
  have hreach : Reachable s := ⟨["x"], Run.of_allHeld (by decide +kernel)⟩
  have hheld : ∀ r ∈ op.operands, r ∈ s.roots := by decide +kernel
  have hfault : op.fault? s = some (.noEnclosingLayout "g") := by decide +kernel
  exact ⟨hreach, hheld, hfault, id, (fault_changes_nothing hreach hheld).1 (by simp [hfault]) id⟩

/-- **A link is left behind**: a module that is active, and nested in nothing, is to be activated again
    inside another. That is refused, but the module is linked to the other from then on. -/
theorem fault_leaves_link :
    let ops : List Operation := [.newLayout "s" .singleton {}, .newScope ⟨0⟩ none 0,
      .newLayout "g" .singleton {}, .newScope ⟨1⟩ none 0]
    let s := ops.foldl Operation.perform (.new ["x"])
    let op := Operation.newScope ⟨0⟩ (some ⟨1⟩) 0
    Reachable s ∧ (∀ r ∈ op.operands, r ∈ s.roots) ∧ op.fault? s = some (.singletonTaken "s")
      ∧ (s.layout ⟨0⟩).enclosing = none ∧ ((op.perform s).layout ⟨0⟩).enclosing = some ⟨1⟩
      ∧ (s.layout ⟨1⟩).children = [] ∧ ((op.perform s).layout ⟨1⟩).children = [⟨0⟩]
      ∧ ¬ op.perform s = { s with nextSerial := (op.perform s).nextSerial } := by
  intro ops s op
  exact ⟨⟨["x"], Run.of_allHeld (by decide +kernel)⟩, by decide +kernel, by decide +kernel, by decide +kernel,
    by decide +kernel, by decide +kernel, by decide +kernel, by decide +kernel⟩

end Store

end ScopeCall
