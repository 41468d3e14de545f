import ScopeCall.Proofs.Shadowing

/-!
# `ScopeCall.Proofs.Framing` — what an assignment disturbs

Where no scope is moved, assigning a name in a scope disturbs nothing but that name, there and further in. A result for
another name is found in another slot, and one that is remembered outside of the layout is found outside of it; both
stay valid, and are read as before.

There is one way in which an assignment may be noticed elsewhere. The value that it replaces may have been the last to
refer to a function, and so to the scope that the function closes over. A result that is bound in that scope is read
through it, does not keep it alive, and says nothing once it has died.

## Contents
- **Assignments.** `Operation.Assigns`, with `assigns_confines` and `assigns_thins`.
- **Results.** `Store.ReadsOn`: still valid if it was, and read as before as long as what is read is alive.
- **Frames.** `assignment_disturbs_nothing_else`, and `assignment_silences_result`.
-/

namespace ScopeCall

namespace Store

variable {s s₁ : Store} {l k : LayoutId} {a : ActivationId} {i j : Nat} {info : SlotInfo} {m n : Name}
  {r : LookupResult} {op : Operation}

/-! ## Assignments -/

/-- The operation changes what a name is bound to in a scope. -/
def Operation.Assigns (s : Store) (a : ActivationId) (n : Name) : Operation → Prop
  | .define b m _ | .assignNonLocal b m _ | .setActiveBinding b m _ | .remove b m => b = a ∧ m = n
  | .write b slot _ _ | .writeInContext b slot _ => b = a ∧ s.slotOf? a n = some slot
  | _ => False

theorem Operation.Assigns.links (h : op.Assigns s a n) : op.isSteady = true ∧ ¬ op.Relinks ∧ ¬ op.LooksUp := by
  cases op <;> first | exact ⟨rfl, id, id⟩ | exact h.elim

theorem Operation.Assigns.mem_roots (h : op.Assigns s a n) (hheld : ∀ q ∈ op.operands, q ∈ s.roots) :
    Ref.activation a ∈ s.roots := by
  cases op <;> first | exact h.1 ▸ hheld _ List.mem_cons_self | exact h.elim

theorem assigns_advances (hs : s.Sound) (h : op.Assigns s a n) (hheld : ∀ q ∈ op.operands, q ∈ s.roots) :
    s.Advances (op.perform s) := by
  cases op with
  | define b m v | assignNonLocal b m v =>
      obtain ⟨hb, hv⟩ := List.forall_mem_cons.1 hheld
      exact advances_bindName hs hb m hv _
  | setActiveBinding b m g =>
      exact advances_bindName hs (hheld _ List.mem_cons_self) m (v := .active g) (by simp [Value.refs]) false
  | write b slot v nonLocal =>
      obtain ⟨hb, hv⟩ := List.forall_mem_cons.1 hheld
      exact advances_write hs hb slot hv nonLocal
  | writeInContext b slot v =>
      obtain ⟨hb, hv⟩ := List.forall_mem_cons.1 hheld
      exact advances_writeInContext hs hb slot hv
  | remove b m => exact advances_remove hs (hheld _ List.mem_cons_self) m
  | _ => exact h.elim

/-- The slot that a name is bound in is the slot of the name. -/
theorem slotIndex?_bindName (hs : s.Sound) (ha : Ref.activation a ∈ s.roots) (n : Name) {v : Value}
    (hv : ∀ q ∈ v.refs, q ∈ s.roots) (nonLocal : Bool) :
    (((bindName a n v nonLocal).run.run s).2.layout (s.layoutOf a)).slotIndex? n
      = some ((findOrAddSlot (s.layoutOf a) n).run s).1 := by
  have hl := hs.wellFormed.layoutOf ha
  have hadd := advances_findOrAddSlot hs hl n
  have hwrite := advances_write (hadd.sound hs) (hadd.mem_roots ha) ((findOrAddSlot (s.layoutOf a) n).run s).1
    (fun q hq => hadd.mem_roots (hv q hq)) nonLocal
  rw [bindName_run]
  exact hwrite.later.slotIndex? ((findOrAddSlot_spec s (s.layoutOf a) n).2.2 hl)

/-- **An assignment is confined to the slot of the name**, if there is one after it. -/
theorem assigns_confines (ho : s.InOrder) (h : op.Assigns s a n) (hheld : ∀ q ∈ op.operands, q ∈ s.roots) :
    op.perform s = s ∨ ∃ i, ((op.perform s).layout (s.layoutOf a)).slotIndex? n = some i
      ∧ Confines (s.layoutOf a) a i s (op.perform s) := by
  have hs := ho.rooted.sound
  have ha := h.mem_roots hheld
  have hlater := (assigns_advances hs h hheld).later
  -- A slot that was there before still has its name.
  have hindex : ∀ {i}, s.slotOf? a n = some i →
      ((op.perform s).layout (s.layoutOf a)).slotIndex? n = some i := fun hi => hlater.slotIndex? hi
  cases op with
  | define b m v | assignNonLocal b m v =>
      obtain ⟨rfl, rfl⟩ := h
      obtain ⟨-, hv⟩ := List.forall_mem_cons.1 hheld
      exact Or.inr ⟨_, slotIndex?_bindName hs ha m hv _, confines_bindName hs ho.furnished ha m v _⟩
  | setActiveBinding b m g =>
      obtain ⟨rfl, rfl⟩ := h
      exact Or.inr ⟨_, slotIndex?_bindName hs ha m (v := .active g) (by simp [Value.refs]) false,
        confines_bindName hs ho.furnished ha m (.active g) false⟩
  | write b slot v nonLocal =>
      obtain ⟨rfl, hslot⟩ := h
      exact Or.inr ⟨slot, hindex hslot, confines_write hs ho.furnished ha slot v nonLocal⟩
  | writeInContext b slot v =>
      obtain ⟨rfl, hslot⟩ := h
      exact Or.inr ⟨slot, hindex hslot, confines_writeInContext hs ho.furnished ha slot v⟩
  | remove b m =>
      obtain ⟨rfl, rfl⟩ := h
      cases hslot : s.slotOf? b m with
      | none =>
          refine Or.inl ?_
          rw [Operation.perform, remove_run, hslot]
      | some slot => exact Or.inr ⟨slot, hindex hslot, confines_remove hs ho.furnished ha hslot⟩
  | _ => exact h.elim

/-- **An assignment takes results for the name only**, where it is on record all the way up. -/
theorem assigns_thins (ho : s.InOrder) (h : op.Assigns s a n) (hheld : ∀ q ∈ op.operands, q ∈ s.roots) :
    Thins n (s.layoutOf a) s (op.perform s) := by
  have hs := ho.rooted.sound
  have hj := ho.mirrored.justified
  have ha := h.mem_roots hheld
  have hname : ∀ {slot}, s.slotOf? a n = some slot → ∀ info, s.slot? (s.layoutOf a) slot = some info →
      info.name = n := fun hslot _ hinfo => name_of_slotIndex? hslot hinfo
  cases op with
  | define b m v | assignNonLocal b m v =>
      obtain ⟨rfl, rfl⟩ := h
      exact thins_bindName hs hj ha m (List.forall_mem_cons.1 hheld).2 _
  | setActiveBinding b m g =>
      obtain ⟨rfl, rfl⟩ := h
      exact thins_bindName hs hj ha m (v := .active g) (by simp [Value.refs]) false
  | write b slot v nonLocal =>
      obtain ⟨rfl, hslot⟩ := h
      exact thins_write hs hj ha (hname hslot) (List.forall_mem_cons.1 hheld).2 nonLocal
  | writeInContext b slot v =>
      obtain ⟨rfl, hslot⟩ := h
      exact thins_writeInContext hs hj ha (hname hslot) (List.forall_mem_cons.1 hheld).2
  | remove b m =>
      obtain ⟨rfl, rfl⟩ := h
      exact thins_remove hs hj ha m
  | _ => exact h.elim

/-! ## Results -/

/-- A result is as valid as it was, and read as it was, unless it was bound in a scope that has died. -/
structure ReadsOn (s s' : Store) (r : LookupResult) : Prop where
  valid : s'.resultValid r = s.resultValid r
  read : s'.readResult r = s.readResult r ∨ ∃ b slot g, r = .boundAt b slot g ∧ s.Live (.activation b)
    ∧ ¬ s'.Live (.activation b) ∧ s'.readResult r = .noInformation

theorem ReadsOn.refl (s : Store) (r : LookupResult) : s.ReadsOn s r := ⟨rfl, Or.inl rfl⟩

/-- A slot of another name is another slot. -/
theorem index_ne (hlater : s.Later s₁) (hi : (s₁.layout l).slotIndex? n = some i) (hj : s.slot? l j = some info)
    (hname : info.name ≠ n) : j ≠ i := by
  rintro rfl
  obtain ⟨info₁, hslot₁, hkept, -⟩ := hlater.slots l j info hj
  rw [name_of_slotIndex? hi hslot₁] at hkept
  exact hname hkept.symm

section Frame

variable (ho : s.InOrder) (hadv : s.Advances s₁) (hr : (s.layout k).memo? m = some r)
  (hapart : m ≠ n ∨ ¬ s.LinkedIn k (s.layoutOf a))
include ho hr hapart

/-- The guard of a result apart stays valid. -/
theorem lookupValid_of_thins (hthins : Thins n (s.layoutOf a) s s₁)
    (hfallen : ∀ g, s₁.lookupValid g = true → s.lookupValid g = true) :
    s₁.lookupValid r.guard = s.lookupValid r.guard := by
  rw [Bool.eq_iff_iff]
  refine ⟨hfallen r.guard, fun hvalid => (hthins.guards r.guard hvalid).resolve_right ?_⟩
  rintro ⟨j, q, hq, hguard, hrecorded⟩
  obtain ⟨rfl, rfl, -⟩ := ho.filed.distinct j n q k m r hq (Layout.mem_memos_of_memo hr) hguard
  exact hapart.elim (fun hne => hne rfl) fun hnot => hnot hrecorded.nestedIn.linkedIn

variable (hconfines : Confines (s.layoutOf a) a i s s₁) (hi : (s₁.layout (s.layoutOf a)).slotIndex? n = some i)
include hadv hconfines hi

/-- The token that a result apart has found describes the same as before, as long as it is valid. -/
theorem stable_of_confines {t : StableId} {g : LookupId} (heq : r = .stable t g) (hvalid : s.stableValid t = true) :
    s₁.stable t = s.stable t := by
  subst heq
  obtain ⟨-, -, hplace⟩ := ho.filed.anchored k m _ (Layout.mem_memos_of_memo hr)
  obtain ⟨p, j, hlinked, hj, ht⟩ := hplace hvalid
  obtain ⟨info, hslot, hstable⟩ := token_eq_some.1 ht
  refine (hconfines.slots p j info (fun hp => ?_) hslot).2 t hstable
  subst hp
  have hname := name_of_slotIndex? hj hslot
  exact index_ne hadv.later hi hslot (hname ▸ hapart.resolve_right fun hnot => hnot hlinked)

/-- What is held where a result apart is bound is held as before. -/
theorem content_of_confines {b : ActivationId} {slot : Nat} {g : LookupId} (heq : r = .boundAt b slot g) :
    s₁.content b slot = s.content b slot := by
  subst heq
  obtain ⟨-, hlinked, hslot⟩ := ho.filed.anchored k m _ (Layout.mem_memos_of_memo hr)
  refine hconfines.content b slot fun hb => ?_
  subst hb
  obtain ⟨info, hinfo, hname⟩ := Layout.slotIndex?_eq_some hslot
  exact index_ne hadv.later hi hinfo (hname ▸ hapart.resolve_right fun hnot => hnot hlinked)

theorem resultValid_of_confines (hlookup : s₁.lookupValid r.guard = s.lookupValid r.guard) :
    s₁.resultValid r = s.resultValid r := by
  have hanchored := ho.filed.anchored k m r (Layout.mem_memos_of_memo hr)
  rw [resultValid_eq, resultValid_eq, hlookup]
  cases r with
  | stable t g =>
      show (_ && s₁.stableValid t) = (_ && s.stableValid t)
      by_cases ht : s.stableValid t = true
      · rw [stableValid, stable_of_confines ho hadv hr hapart hconfines hi rfl ht, ← stableValid]
      · -- A token that has fallen stays so.
        have hfalse := Bool.eq_false_iff.2 ht
        rw [hfalse, hadv.later.fallen t hanchored.1 hfalse]
  | boundAt | unbound => rfl

/-- **A result apart reads on.** -/
theorem readsOn_of_confines (hlookup : s₁.lookupValid r.guard = s.lookupValid r.guard) : s.ReadsOn s₁ r := by
  have hwf := ho.rooted.sound.wellFormed
  have hanchored := ho.filed.anchored k m r (Layout.mem_memos_of_memo hr)
  have hvalid := resultValid_of_confines ho hadv hr hapart hconfines hi hlookup
  refine ⟨hvalid, ?_⟩
  unfold readResult
  rw [hvalid]
  by_cases hv : s.resultValid r = true
  · rw [if_pos hv, if_pos hv]
    cases r with
    | stable t g =>
        rw [resultValid_eq, Bool.and_eq_true] at hv
        dsimp only
        rw [stable_of_confines ho hadv hr hapart hconfines hi rfl hv.2]
        exact Or.inl rfl
    | boundAt b slot g =>
        have hread : s₁.read b slot = s.read b slot := by
          unfold Store.read readIn
          rw [content_of_confines ho hadv hr hapart hconfines hi rfl, hconfines.contexts]
        have halloc := hanchored.1
        have hlive := isLive_iff hwf halloc
        have hlive₁ := isLive_iff (hadv.leads.wellFormed hwf) (hadv.leads.grows _ halloc)
        dsimp only
        unfold upgradeActivation
        by_cases hb₁ : s₁.Live (.activation b)
        · -- What is alive was alive before.
          rw [if_pos (hlive₁.2 hb₁), if_pos (hlive.2 (hadv.leads.live hb₁ halloc)), Option.bind_some, Option.bind_some,
            hread]
          exact Or.inl rfl
        · rw [if_neg fun h => hb₁ (hlive₁.1 h)]
          by_cases hb : s.Live (.activation b)
          · exact Or.inr ⟨b, slot, g, rfl, hb, hb₁, rfl⟩
          · rw [if_neg fun h => hb (hlive.1 h)]
            exact Or.inl rfl
    | unbound g => exact Or.inl rfl
  · rw [if_neg hv, if_neg hv]
    exact Or.inl rfl

end Frame

/-! ## Frames -/

/-- **An assignment disturbs nothing else.** In a program that moves no scope, a name is assigned in a scope, or its
    binding is removed. A result for another name, or one that is remembered outside of the layout of the scope, stays
    as it is remembered, and as valid; it is read as before, unless it was bound in a scope that has died with the value
    that was replaced, and says nothing then. Slots of other names, and of other layouts, keep their metadata and what
    their tokens describe, and the slots of the layout their guards. No content changes but that of the slot of the
    name in the scope itself, in any context. -/
theorem assignment_disturbs_nothing_else (h : s.Settled) (hop : op.Assigns s a n)
    (hheld : ∀ q ∈ op.operands, q ∈ s.roots) :
    let s' := op.perform s
    (∀ k m r, (s.layout k).memo? m = some r → m ≠ n ∨ ¬ s.LinkedIn k (s.layoutOf a) →
        s.ReadsOn s' r ∧ (s.lookupValid r.guard = true → (s'.layout k).memo? m = some r))
      ∧ (∀ k i info, s.slot? k i = some info → k ≠ s.layoutOf a ∨ info.name ≠ n → s'.slot? k i = some info
        ∧ ∀ t, info.stable = some t → s'.stable t = s.stable t)
      ∧ (∀ i info, s.slot? (s.layoutOf a) i = some info → info.name ≠ n → ∀ g ∈ info.guards,
        s'.guardValid g = s.guardValid g)
      ∧ ∀ b i, b ≠ a ∨ s'.slotOf? a n ≠ some i → s'.content b i = s.content b i := by
  intro s'
  have ho := h.inOrder
  have hs := ho.rooted.sound
  have hadv : s.Advances s' := assigns_advances hs hop hheld
  have hthins : Thins n (s.layoutOf a) s s' := assigns_thins ho hop hheld
  have hfades : s.Fades (fun _ => False) s' :=
    fades_perform hs hheld hop.links.2.1 hop.links.2.2 fun _ => False.elim
  rcases assigns_confines ho hop hheld with hsame | ⟨i, hi, hconfines⟩
  · -- A name that is not bound has not been removed.
    replace hsame : s' = s := hsame
    rw [hsame]
    exact ⟨fun k m r hr _ => ⟨.refl s r, fun _ => hr⟩, fun k i info hslot _ => ⟨hslot, fun _ _ => rfl⟩,
      fun _ _ _ _ _ _ => rfl, fun _ _ _ => rfl⟩
  · refine ⟨fun k m r hr hapart => ?_, fun k j info hslot hother => ?_, fun j info hslot hname g hg => ?_,
      fun b j hother => ?_⟩
    · have hlookup := lookupValid_of_thins ho hr hapart hthins hfades.fallen
      exact ⟨readsOn_of_confines ho hadv hr hapart hconfines hi hlookup,
        fun hvalid => (hfades.kept k m r hr (hlookup.trans hvalid)).1⟩
    · refine hconfines.slots k j info (fun hk => ?_) hslot
      subst hk
      exact index_ne hadv.later hi hslot (hother.resolve_left fun hne => hne rfl)
    · exact hconfines.guards j info (index_ne hadv.later hi hslot hname) hslot g hg
    · refine hconfines.content b j fun hb => ?_
      have hslot : s'.slotOf? a n = some i := by
        rw [slotOf?, hconfines.layoutOf]
        exact hi
      rw [hslot] at hother
      exact fun hij => hother.elim (fun hne => hne hb) fun hne => hne (congrArg some hij.symm)

/-- A function has found two variables of the module where it is nested. When one is assigned, what it remembers for
    the other is still read, and the module holds the other as before. -/
theorem other_variable_read_on :
    let ops : List Operation := [.newLayout "g" .singleton {}, .newScope ⟨0⟩ none 0, .define ⟨0⟩ ⟨2⟩ (.int 1),
      .define ⟨0⟩ ⟨3⟩ (.int 2), .newLayout "d" .function {}, .newScope ⟨1⟩ (some ⟨0⟩) 0, .resolve ⟨1⟩ ⟨2⟩,
      .resolve ⟨1⟩ ⟨3⟩]
    let s := ops.foldl Operation.perform (.new ["x", "y"])
    let op : Operation := .define ⟨0⟩ ⟨2⟩ (.int 3)
    let s' := op.perform s
    Settled s ∧ op.Assigns s ⟨0⟩ ⟨2⟩ ∧ (∀ q ∈ op.operands, q ∈ s.roots)
      ∧ (s.layout ⟨1⟩).memo? ⟨2⟩ = some (.stable ⟨1⟩ ⟨0⟩) ∧ s'.readResult (.stable ⟨1⟩ ⟨0⟩) = .noInformation
      ∧ (s.layout ⟨1⟩).memo? ⟨3⟩ = some (.stable ⟨3⟩ ⟨1⟩) ∧ s'.readResult (.stable ⟨3⟩ ⟨1⟩) = .value (.int 2)
      ∧ s'.content ⟨0⟩ 1 = .value (.int 2) := by
  intro ops s op s'
  have h : Settled s := ⟨["x", "y"], SettledRun.of_allFit (by decide +kernel)⟩
  have hop : op.Assigns s ⟨0⟩ ⟨2⟩ := ⟨rfl, rfl⟩
  have hheld : ∀ q ∈ op.operands, q ∈ s.roots := by decide +kernel
  have hmemo : (s.layout ⟨1⟩).memo? ⟨3⟩ = some (.stable ⟨3⟩ ⟨1⟩) := by decide +kernel
  obtain ⟨hresults, -, -, hcontents⟩ := assignment_disturbs_nothing_else h hop hheld
  have hread : s'.readResult (.stable ⟨3⟩ ⟨1⟩) = s.readResult (.stable ⟨3⟩ ⟨1⟩) := by
    rcases (hresults ⟨1⟩ ⟨3⟩ _ hmemo (Or.inl (by decide))).1.read with hsame | ⟨b, slot, g, hbound, -⟩
    · exact hsame
    · cases hbound
  have hcontent : s'.content ⟨0⟩ 1 = s.content ⟨0⟩ 1 := hcontents ⟨0⟩ 1 (Or.inr (by decide +kernel))
  have hbefore : s.readResult (.stable ⟨3⟩ ⟨1⟩) = .value (.int 2) ∧ s.content ⟨0⟩ 1 = .value (.int 2) := by
    decide +kernel
  exact ⟨h, hop, hheld, by decide +kernel, by decide +kernel, hmemo, hread.trans hbefore.1,
    hcontent.trans hbefore.2⟩

/-- **A result falls silent**: a variable of a scope has been assigned so often that it is not tracked any more, and
    what a function in the scope remembers for it is bound in the scope. All that refers to the scope in the end is
    another function, and to that one the value of a variable of the module around. When this variable is assigned
    again, the scope dies, and the result for the first one, though it is valid, says nothing. -/
theorem assignment_silences_result : ¬ ∀ (s : Store) (op : Operation) (a : ActivationId) (n : Name), Settled s →
    op.Assigns s a n → (∀ q ∈ op.operands, q ∈ s.roots) → ∀ k m r, (s.layout k).memo? m = some r →
    m ≠ n ∨ ¬ s.LinkedIn k (s.layoutOf a) → (op.perform s).resultValid r = s.resultValid r
      ∧ (op.perform s).readResult r = s.readResult r := by
  intro hclaim
  let ops : List Operation := [.newLayout "g" .singleton {}, .newScope ⟨0⟩ none 0, .newLayout "b" .singleton {},
    .newScope ⟨1⟩ (some ⟨0⟩) 0, .define ⟨1⟩ ⟨2⟩ (.int 1), .define ⟨1⟩ ⟨2⟩ (.int 2), .define ⟨1⟩ ⟨2⟩ (.int 3),
    .newLayout "d" .singleton {}, .newScope ⟨2⟩ (some ⟨1⟩) 0, .resolve ⟨2⟩ ⟨2⟩, .newLayout "f" .function {},
    .initializeEnclosing ⟨3⟩ (some ⟨1⟩)]
  let s₁ := ops.foldl Operation.perform (.new ["m", "n"])
  let f : Callable := ({ name := ⟨3⟩ } : CallableSpec).build (.closure ⟨3⟩ ⟨1⟩ ⟨0⟩)
  let s₂ := (s₁.addFunction { body := ⟨0⟩, dedicated := false } f).acquire [.callable ⟨s₁.callables.size⟩]
  let s₃ := (Operation.define ⟨0⟩ ⟨3⟩ (.function ⟨0⟩)).perform s₂
  let s := s₃.release [.callable ⟨0⟩, .layout ⟨3⟩, .activation ⟨2⟩, .activation ⟨1⟩]
  let op : Operation := .define ⟨0⟩ ⟨3⟩ (.int 0)
  have h : Settled s := by
    have h₁ : SettledRun (.new ["m", "n"]) s₁ := SettledRun.of_allFit (by decide +kernel)
    have hrefs : ∀ q ∈ f.refs, s₁.Live q := by
      have hroots : ∀ q ∈ f.refs, q ∈ s₁.roots := by decide +kernel
      exact fun q hq => live_of_mem_roots (hroots q hq)
    have h₂ : SettledRun (.new ["m", "n"]) s₂ := h₁.tail (settledStep_addFunction s₁ _ hrefs)
    have h₃ : SettledRun s₂ ([.define ⟨0⟩ ⟨3⟩ (.function ⟨0⟩)].foldl Operation.perform s₂) :=
      SettledRun.of_allFit (by decide +kernel)
    exact ⟨["m", "n"], (h₂.trans h₃).tail (settledStep_release s₃ _)⟩
  have hread := (hclaim s op ⟨0⟩ ⟨3⟩ h ⟨rfl, rfl⟩ (by decide +kernel) ⟨2⟩ ⟨2⟩ (.boundAt ⟨1⟩ 0 ⟨0⟩) (by decide +kernel)
    (Or.inl (by decide))).2
  have hsilent : (op.perform s).readResult (.boundAt ⟨1⟩ 0 ⟨0⟩) = .noInformation := by decide +kernel
  have hbefore : s.readResult (.boundAt ⟨1⟩ 0 ⟨0⟩) = .value (.int 3) := by decide +kernel
  rw [hsilent, hbefore] at hread
  cases hread

end Store

end ScopeCall
