import ScopeCall.Proofs.Confining
import ScopeCall.Proofs.Thinning

/-!
# `ScopeCall.Proofs.Shadowing` — a new binding, and the lookups that may see it

A name that is bound in a layout shadows what it was bound to further out. Lookups that have passed the layout would
end there now, and are invalidated: a sweep goes down from the layout, as far as the name is on record. What is on
record was left there by walks, but not only by those whose results are remembered now. So a result may be lost that
was found below the layout, if some other walk has come further than the one that found it.

## Contents
- **Filling.** `Store.Unbinds`, and what is on record once such a name is bound.
- **Staying.** In a settled program, what is nested now has been nested since it was looked up.
- **What is on record.** `Settled.passedBefore`: a name is on record where some lookup of it has passed.
- **New bindings.** `binding_invalidates_recorded`, and `binding_invalidates_shadowed`.
-/

namespace ScopeCall

namespace Store

variable {s s₀ s₁ s₂ : Store} {l k p : LayoutId} {a b : ActivationId} {n : Name} {r : LookupResult} {v : Value}

/-! ## Filling -/

/-- A layout does not bind a name: it has no slot for it, or one that is tracked and empty. -/
def Unbinds (s : Store) (l : LayoutId) (n : Name) : Prop :=
  ∀ i, (s.layout l).slotIndex? n = some i → ∃ t, s.token l i = some t ∧ (s.stable t).value = none

/-- Storing a value in a slot that is tracked and empty fills it. -/
theorem filled_of_empty (hs : s.Sound) (ha : Ref.activation a ∈ s.roots) {i : Nat} {t : StableId}
    (ht : s.token (s.layoutOf a) i = some t) (hvalue : (s.stable t).value = none) (v : Value) :
    ((store a i v).run s).1 = true := by
  have hempty : s.content a i = .empty := by
    rw [hs.bindings.agree a i t (live_of_mem_roots ha) ht not_false, hvalue]
    rfl
  obtain ⟨info, hslot, hstable⟩ := token_eq_some.1 ht
  rw [store_run, hempty]
  simp [recordWrite_run, hslot, hstable, hvalue]

/-- **Once a name is bound that was not, it is not on record any more.** -/
theorem not_recorded_bindName (hs : s.Sound) (ha : Ref.activation a ∈ s.roots) (hv : ∀ r ∈ v.refs, r ∈ s.roots)
    (nonLocal : Bool) (hu : s.Unbinds (s.layoutOf a) n) :
    n ∉ (((bindName a n v nonLocal).run.run s).2.layout (s.layoutOf a)).recorded := by
  have hl := hs.wellFormed.layoutOf ha
  have hadd := advances_findOrAddSlot hs hl n
  rw [bindName_run]
  rw [findOrAddSlot_run] at hadd ⊢
  cases hindex : (s.layout (s.layoutOf a)).slotIndex? n with
  | none =>
      simp only [hindex] at hadd ⊢
      -- The sweep for the new slot takes the name from the record, and the write puts nothing there.
      obtain ⟨info, -, hw⟩ := widens_widened hl n
      have hgone := not_recorded_sweep (forgetting_forgetNames [n]) (hw.leads.wellFormed hs.wellFormed)
        (hw.leads.grows _ hl) (List.mem_singleton.2 rfl)
      have hfades : Fades (fun _ => False) _ _ := fades_write (hadd.sound hs) (hadd.mem_roots ha)
        (s.layout (s.layoutOf a)).slots.size (fun r hr => hadd.mem_roots (hv r hr)) nonLocal fun _ => False.elim
      exact fun hin => hgone (hfades.recorded _ _ hin)
  | some i =>
      dsimp only
      obtain ⟨t, ht, hvalue⟩ := hu i hindex
      obtain ⟨info, hslot, rfl⟩ := Layout.slotIndex?_eq_some hindex
      have hnoted := (aside_noted s a v).1
      have hfilled : ((store a i v).run (s.noted a v)).1 = true := by
        refine filled_of_empty ((hnoted.advances hs).sound hs) ((hnoted.advances hs).mem_roots ha) (t := t) ?_ ?_ v
        · rwa [layoutOf, hnoted.activation, ← layoutOf, token, slot?, hnoted.layout]
        · rwa [stable, hnoted.stables]
      obtain ⟨s₁, s₂, irregular, hstored, -, hswept, hwrite⟩ := write_stages hslot v nonLocal
      obtain ⟨hadv, -⟩ := stored_stage hs ha hslot hv hstored
      rw [hwrite, (still_noteWrite s₂ info nonLocal irregular).part Layout.recorded fun _ => rfl, hswept hfilled]
      exact not_recorded_sweep (forgetting_forgetNames [info.name]) (hadv.leads.wellFormed hs.wellFormed)
        (hadv.leads.grows _ hl) (List.mem_singleton.2 rfl)

/-! ## Staying -/

/-- A step that links nothing anew is one of a settled program. -/
theorem settledStep_of_enclosing (ho : s.InOrder) {op : Operation} (hop : op.isSteady = true)
    (h : ∀ q ∈ op.operands, q ∈ s.roots)
    (henclosing : ∀ k, ((op.perform s).layout k).enclosing = (s.layout k).enclosing) :
    s.SettledStep (op.perform s) := by
  have hs := ho.rooted.sound
  have hp := progress_perform hs h
  refine .operate op hop h (fun l _ => henclosing l) ?_
  exact ho.rooted.acyclic.of_enclosing hs.wellFormed hp.sound.wellFormed henclosing hp.back

theorem LooksThrough.settledStep {op : Operation} (h : s.LooksThrough op k l n r) (ho : s.InOrder) :
    s.SettledStep (op.perform s) := by
  have hop : op.isSteady = true := by
    have hlooks := h.looksUp
    cases op <;> first | rfl | exact hlooks.elim
  exact settledStep_of_enclosing ho hop h.held (adds_perform ho.rooted.sound h.held h.looksUp).enclosing

/-- What is nested at the end of a run, and was at its start, was so on the way. -/
theorem nestedIn_between (hs : s.Sound) (hrun : SettledRun s s₁) (hrun' : SettledRun s₁ s₂) (hk : s.NestedIn k l)
    (hend : s₂.NestedIn k l) : s₁.NestedIn k l := by
  have hp := SettledRun.progress hrun hs
  have hp' := SettledRun.progress hrun' hp.sound
  induction hk using Relation.ReflTransGen.head_induction_on with
  | refl => exact .refl
  | @head k p hk _ ih =>
      obtain rfl | ⟨q, hq, hrest⟩ := hend.cases_head
      · exact .refl
      · -- The link is that of the start, and its layout was not dead before.
        obtain ⟨hlink₂, hlive₂⟩ := (parent_eq_some_iff hp'.sound.wellFormed).1 hq
        have hlink₁ := SettledRun.keepsLinks hrun k p (parent_eq_some hk)
        obtain rfl := Option.some.inj ((SettledRun.keepsLinks hrun' k p hlink₁).symm.trans hlink₂)
        exact .head (parent_before hp.sound.wellFormed hp'.back hlink₁ hlive₂) (ih hrest)

theorem stays_of_settledRun (ho : s.InOrder) (hrun : SettledRun s s₁) (hrun' : SettledRun s₁ s₂)
    (hk : s.NestedIn k l) (hend : s₂.NestedIn k l) (g : LookupId) : Relation.ReflTransGen (StaysIn k l g) s s₁ := by
  induction hrun with
  | refl => exact .refl
  | tail hrun hstep ih =>
      have hrooted := (SettledRun.inOrder hrun ho).rooted
      refine (ih (hrun'.head hstep)).tail ⟨hstep.forestStep hrooted, fun _ => ?_⟩
      exact nestedIn_between ho.rooted.sound (hrun.tail hstep) hrun' hk hend

theorem RecordedUpTo.nestedIn (h : s.RecordedUpTo n l k) : s.NestedIn k l := by
  induction h with
  | here _ => exact .refl
  | up _ hp _ ih => exact .head hp ih

/-! ## What is on record -/

/-- A walk leaves its name on record where it has passed, and nowhere else. -/
theorem recorded_of_remembering (hs : s.WellFormed) (ha : s.Live (.activation a)) {m : Name} {fuel : Nat} {f : Finding}
    {path : List ActivationId} (hw : s.walk m fuel a = some (f, path))
    (h : n ∈ ((s.remembering a m f path).layout k).recorded) :
    n ∈ (s.layout k).recorded ∨ n = m ∧ ∃ b ∈ path, s.layoutOf b = k := by
  have hl := (ha.layoutOf hs).allocated hs
  unfold remembering at h
  dsimp only at h
  generalize "lookup " ++ m.debug ++ " from " ++ (s.layout (s.layoutOf a)).label = label at h
  have hstart := ((s.addLookup label).mem_recordWalk m m path (s.layoutOf a)).2
    (Or.inr ⟨rfl, hl, a, mem_path_of_walk hw, rfl⟩)
  rw [(memoizes_memoize hstart _).layout] at h
  rcases ((s.addLookup label).mem_recordWalk m n path k).1 h with hold | ⟨hn, -, hpassed⟩
  · exact Or.inl hold
  · exact Or.inr ⟨hn, hpassed⟩

theorem resolve_remembering (s : Store) (a : ActivationId) (n : Name) : ((resolve a n).run s).2 = s
    ∨ ∃ f path, s.walk n s.chainBound a = some (f, path) ∧ ((resolve a n).run s).2 = s.remembering a n f path := by
  have hanew : ((resolveAnew a n).run s).2 = s
      ∨ ∃ f path, s.walk n s.chainBound a = some (f, path)
        ∧ ((resolveAnew a n).run s).2 = s.remembering a n f path := by
    rw [resolveAnew_run]
    split
    · exact Or.inl rfl
    · rename_i f path hw
      exact Or.inr ⟨f, path, hw, rfl⟩
  rw [resolve_run]
  split
  · split
    · exact Or.inl rfl
    · exact hanew
  · exact hanew

/-- What a lookup puts on record at a layout, it has looked for through it. -/
theorem looksThrough_of_recorded (hs : s.Sound) {op : Operation} (h : ∀ q ∈ op.operands, q ∈ s.roots) {m : Name}
    (hop : op.LooksUpFrom s a m) (hin : n ∈ ((op.perform s).layout k).recorded) :
    n ∈ (s.layout k).recorded ∨ ∃ j r, s.LooksThrough op j k n r := by
  have ha := live_of_mem_roots (mem_roots_of_looksUpFrom hop h)
  obtain ⟨s₁, hfound, hlayouts, -⟩ := perform_lookup hop
  have hlayout : ∀ j, (op.perform s).layout j = s₁.layout j := fun j => by rw [layout, hlayouts, ← layout]
  rw [hlayout] at hin
  obtain rfl | ⟨f, path, hw, heq⟩ : s₁ = s ∨ ∃ f path, s.walk m s.chainBound a = some (f, path)
      ∧ s₁ = s.remembering a m f path := by
    rcases hfound with hsame | hfound
    · exact Or.inl hsame
    · rw [hfound]
      exact resolve_remembering s a m
  · exact Or.inl hin
  · rw [heq] at hin hlayout
    refine (recorded_of_remembering hs.wellFormed ha hw hin).imp_right ?_
    rintro ⟨rfl, hpassed⟩
    have hlearns := learns_remembering hs ha hw
    refine ⟨s.layoutOf a, _, h, ?_, hlearns.fresh, a, f, path, hop, rfl, hw, hpassed⟩
    rw [hlayout, hlearns.memo, if_pos ⟨rfl, rfl⟩]

/-- A lookup of `n` has passed `k` on the way to `s`. -/
def PassedBefore (s : Store) (n : Name) (k : LayoutId) : Prop :=
  ∃ (s₀ : Store) (op : Operation) (j : LayoutId) (r : LookupResult),
    s₀.Settled ∧ s₀.LooksThrough op j k n r ∧ SettledRun (op.perform s₀) s

theorem recorded_initializeEnclosing (s : Store) (l : LayoutId) (parent : Option LayoutId) (k : LayoutId) :
    (((initializeEnclosing l parent).run.run s).2.layout k).recorded = (s.layout k).recorded := by
  rw [initializeEnclosing_run]
  split
  · rename_i p _
    show ((s.linked l p).layout k).recorded = (s.layout k).recorded
    rw [(rewires_linked s l p).layout]
  · split <;> rfl

/-- **A step puts a name on record where it looks through**, and nowhere else. -/
theorem SettledStep.recorded (h : s.SettledStep s₁) (hs : s.Sound) (hin : n ∈ (s₁.layout k).recorded) :
    n ∈ (s.layout k).recorded ∨ ∃ op j r, s.LooksThrough op j k n r ∧ s₁ = op.perform s := by
  cases h with
  | elsewhere h _ =>
      rw [h.layout] at hin
      exact Or.inl hin
  | operate op hop h _ _ =>
      have hwf := hs.wellFormed
      by_cases hlooks : op.LooksUp
      · obtain ⟨a, m, hfrom⟩ : ∃ a m, op.LooksUpFrom s a m := by
          cases op with
          | resolve a m => exact ⟨a, m, rfl, rfl⟩
          | cachedRead c a => exact ⟨a, _, rfl, rfl⟩
          | _ => exact hlooks.elim
        refine (looksThrough_of_recorded hs h hfrom hin).imp_right ?_
        rintro ⟨j, r, hthrough⟩
        exact ⟨op, j, r, hthrough, rfl⟩
      · refine Or.inl ?_
        by_cases hlinks : op.Relinks
        · cases op with
          | initializeEnclosing l parent =>
              exact recorded_initializeEnclosing s l parent k ▸ hin
          | newScope l enclosing depth =>
              have hlasting : ((Operation.newScope l enclosing depth).perform s).Lasting fun _ => False :=
                fun _ => False.elim
              rcases fades_newScope hs h hlasting with hfades | ⟨b, rfl, -, hfades⟩
              · exact hfades.recorded k n hin
              · have hold := hfades.recorded k n hin
                rwa [(rewires_linked s l (s.layoutOf b)).layout] at hold
          | relink l parent => exact absurd hop Bool.false_ne_true
          | setEnclosing a parent => exact absurd hop Bool.false_ne_true
          | attach a b => exact absurd hop Bool.false_ne_true
          | detachEnclosing a => exact absurd hop Bool.false_ne_true
          | _ => exact hlinks.elim
        · have hfades : s.Fades (fun _ => False) (op.perform s) := fades_perform hs h hlinks hlooks fun _ => False.elim
          exact hfades.recorded k n hin

/-- **What is on record has been looked for.** -/
theorem Settled.passedBefore (h : s.Settled) (hin : n ∈ (s.layout k).recorded) : s.PassedBefore n k := by
  obtain ⟨names, hrun⟩ := h
  induction hrun with
  | refl => exact absurd hin List.not_mem_nil
  | @tail s₁ s₂ hrun hstep ih =>
      rcases hstep.recorded (Settled.inOrder ⟨names, hrun⟩).rooted.sound hin with hold | ⟨op, j, r, hthrough, rfl⟩
      · obtain ⟨s₀, op, j, r, h₀, hthrough, hrun₀⟩ := ih hold
        exact ⟨s₀, op, j, r, h₀, hthrough, hrun₀.tail hstep⟩
      · exact ⟨s₁, op, j, r, ⟨names, hrun⟩, hthrough, .refl⟩

/-! ## New bindings -/

/-- A result is lost with its guard: no token with a value falls when a name is bound that was not. -/
theorem findingValid_bindName (ho : s.InOrder) (ha : Ref.activation a ∈ s.roots) (nonLocal : Bool)
    (hu : s.Unbinds (s.layoutOf a) n) (hr : (s.layout k).memo? n = some r) (hvalid : s.resultValid r = true) :
    ((bindName a n v nonLocal).run.run s).2.findingValid r.finding = true := by
  have hconfines := confines_bindName ho.rooted.sound ho.furnished ha n v nonLocal
  have hanchored := ho.filed.anchored k n r (Layout.mem_memos_of_memo hr)
  rw [resultValid_eq, Bool.and_eq_true] at hvalid
  cases r with
  | stable t g =>
      obtain ⟨-, hvalue, hplace⟩ := hanchored
      obtain ⟨p, i, -, hi, ht⟩ := hplace hvalid.2
      obtain ⟨info, hslot, hstable⟩ := token_eq_some.1 ht
      -- The slot is of another layout, since this one does not bind the name.
      have hp : p ≠ s.layoutOf a := by
        rintro rfl
        obtain ⟨u, hu, hnone⟩ := hu i hi
        rw [Option.some.inj (ht.symm.trans hu)] at hvalue
        exact hvalue hnone
      have hsame := (hconfines.slots p i info (fun heq => absurd heq hp) hslot).2 t hstable
      show ((bindName a n v nonLocal).run.run s).2.stableValid t = true
      rw [stableValid, hsame]
      exact hvalid.2
  | boundAt | unbound => rfl

/-- **A new binding invalidates what is on record.** In a program that moves no scope, a name is bound in a layout
    that did not bind it. What a layout remembers for the name is lost only if the name is on record there and all the
    way up, so only if some lookup of it has passed the layout; and then it is lost, if the layout that remembers it
    is alive and still nested below. So each result is lost whose own lookup has passed the layout. -/
theorem binding_invalidates_recorded (h : s.Settled) (ha : Ref.activation a ∈ s.roots)
    (hv : ∀ q ∈ v.refs, q ∈ s.roots) (hu : s.Unbinds (s.layoutOf a) n) :
    let s' := (Operation.define a n v).perform s
    (∀ k r, (s.layout k).memo? n = some r → s.resultValid r = true → s'.resultValid r = false →
        s.RecordedUpTo n (s.layoutOf a) k ∧ s.PassedBefore n (s.layoutOf a))
      ∧ (∀ k r, (s.layout k).memo? n = some r → s.RecordedUpTo n (s.layoutOf a) k → s'.Live (.layout k) →
        s'.NestedIn k (s.layoutOf a) → s'.resultValid r = false)
      ∧ ∀ (s₀ : Store) (op : Operation) k r, s₀.Settled → s₀.LooksThrough op k (s.layoutOf a) n r →
        SettledRun (op.perform s₀) s → s'.Live (.layout k) → s'.NestedIn k (s.layoutOf a) →
        s'.resultValid r = false := by
  intro s'
  have ho := h.inOrder
  have hs := ho.rooted.sound
  have hheld : ∀ q ∈ (Operation.define a n v).operands, q ∈ s.roots := List.forall_mem_cons.2 ⟨ha, hv⟩
  have hfades : s.Fades (fun k => s'.Live (.layout k)) s' := fades_perform hs hheld id id fun _ hlive _ => hlive
  have hstep : s.SettledStep s' := settledStep_of_enclosing ho rfl hheld hfades.enclosing
  have hthins : Thins n (s.layoutOf a) s s' := thins_bindName hs ho.mirrored.justified ha n hv false
  have hgone : n ∉ (s'.layout (s.layoutOf a)).recorded := not_recorded_bindName hs ha hv false hu
  have hprogress := hstep.step.progress hs
  have hguides : s.Guides s' n (s.layoutOf a) fun j => n ∈ (s'.layout j).recorded :=
    guides_fades hs.wellFormed ho.rooted.registered hfades
  -- A result that was still valid would still be on record where the binding has taken the name from it.
  have hlost : ∀ k r, (s.layout k).memo? n = some r → s.RecordedUpTo n (s.layoutOf a) k → s'.Live (.layout k) →
      s'.NestedIn k (s.layoutOf a) → s'.lookupValid r.guard = false := by
    intro k r hr hrecorded hlive hnested
    refine Bool.eq_false_iff.2 fun hvalid => hgone ?_
    have hstays := (hguides.kept k r hr hvalid).2 hrecorded.recorded
    exact (hguides.recordedUpTo hprogress.sound.wellFormed hrecorded hstays hlive hnested).recorded_last
  refine ⟨fun k r hr hvalid hinvalid => ?_, fun k r hr hrecorded hlive hnested => ?_,
    fun s₀ op k r h₀ hlooks hrun hlive hnested => ?_⟩
  · have hfinding : s'.findingValid r.finding = true := findingValid_bindName ho ha false hu hr hvalid
    rw [resultValid_eq, hfinding, Bool.and_true] at hinvalid
    rw [resultValid_eq, Bool.and_eq_true] at hvalid
    -- The guard has fallen, and it is that of no other result.
    obtain ⟨j, q, hq, hguard, hrecorded⟩ := (hthins.guards r.guard hvalid.1).resolve_left (by simp [hinvalid])
    obtain ⟨rfl, -, -⟩ := ho.filed.distinct j n q k n r hq (Layout.mem_memos_of_memo hr) hguard
    exact ⟨hrecorded, h.passedBefore hrecorded.recorded_last⟩
  · rw [resultValid_eq, hlost k r hr hrecorded hlive hnested, Bool.false_and]
  · -- What the lookup left on record is still there, unless its result has been lost already.
    have ho₀ := h₀.inOrder
    obtain ⟨hrooted, hrecord⟩ := hlooks.onRecord ho₀.rooted ho₀.orderly
    have hstart := (hlooks.recordedUpTo ho₀.rooted.sound ho₀.orderly).nestedIn
    have hstays := stays_of_settledRun ((hlooks.settledStep ho₀).inOrder ho₀) hrun (.single hstep) hstart hnested
      r.guard
    obtain ⟨-, hrecord⟩ := onRecord_of_stays hstays hrooted hrecord
    rw [resultValid_eq, Bool.and_eq_false_iff]
    refine Or.inl ?_
    by_cases hvalid : s.lookupValid r.guard = true
    · obtain ⟨hr, hrecorded⟩ := hrecord.recorded (hprogress.back k hlive hrecord.allocated) hvalid
      exact hlost k r hr hrecorded hlive hnested
    · exact Bool.eq_false_iff.2 fun hvalid' => hvalid (hguides.fallen _ hrecord.made hvalid')

/-- A function looks for a name through two modules. When the name is bound in the outer one, the result is lost. -/
theorem passed_result_lost :
    let ops : List Operation := [.newLayout "g" .singleton {}, .newScope ⟨0⟩ none 0, .newLayout "m" .singleton {},
      .newScope ⟨1⟩ (some ⟨0⟩) 0, .newLayout "d" .function {}, .newScope ⟨2⟩ (some ⟨1⟩) 0]
    let s₀ := ops.foldl Operation.perform (.new ["x"])
    let op : Operation := .resolve ⟨2⟩ ⟨2⟩
    let s := op.perform s₀
    let s' := (Operation.define ⟨0⟩ ⟨2⟩ (.int 1)).perform s
    Settled s ∧ Ref.activation ⟨0⟩ ∈ s.roots ∧ (∀ q ∈ (Value.int 1).refs, q ∈ s.roots)
      ∧ s.Unbinds (s.layoutOf ⟨0⟩) ⟨2⟩ ∧ (s.layout ⟨2⟩).memo? ⟨2⟩ = some (.unbound ⟨0⟩)
      ∧ s.resultValid (.unbound ⟨0⟩) = true ∧ s'.resultValid (.unbound ⟨0⟩) = false := by
  intro ops s₀ op s s'
  have h₀ : Settled s₀ := ⟨["x"], SettledRun.of_allFit (by decide +kernel)⟩
  have hlooks : s₀.LooksThrough op ⟨2⟩ ⟨0⟩ ⟨2⟩ (.unbound ⟨0⟩) :=
    ⟨by decide +kernel, by decide +kernel, by decide +kernel, ⟨2⟩, .unbound, [⟨2⟩, ⟨1⟩, ⟨0⟩], ⟨rfl, rfl⟩,
      by decide +kernel, by decide +kernel, ⟨0⟩, by decide, by decide +kernel⟩
  have h : Settled s := by
    obtain ⟨names, hrun⟩ := h₀
    exact ⟨names, hrun.tail (hlooks.settledStep (Settled.inOrder ⟨names, hrun⟩))⟩
  have ha : Ref.activation ⟨0⟩ ∈ s.roots := by decide +kernel
  have hv : ∀ q ∈ (Value.int 1).refs, q ∈ s.roots := by simp [Value.refs]
  have hu : s.Unbinds (s.layoutOf ⟨0⟩) ⟨2⟩ := by
    have hnone : (s.layout (s.layoutOf ⟨0⟩)).slotIndex? ⟨2⟩ = none := by decide +kernel
    intro i hi
    rw [hnone] at hi
    cases hi
  have hlayout : s.layoutOf ⟨0⟩ = ⟨0⟩ := by decide +kernel
  obtain ⟨-, -, hpassed⟩ := binding_invalidates_recorded h ha hv hu
  rw [hlayout] at hpassed
  have hnested : s'.NestedIn ⟨2⟩ ⟨0⟩ := .head (b := ⟨1⟩) (by decide +kernel) (.single (by decide +kernel))
  exact ⟨h, ha, hv, hu, by decide +kernel, by decide +kernel, hpassed s₀ op ⟨2⟩ (.unbound ⟨0⟩) h₀ hlooks .refl
    (live_of_mem_roots (by decide +kernel)) hnested⟩

/-- **A result is lost that was found further in**: a function has looked for a name through a module and the scope
    around it. The name is bound in the module then, and found there. When it is bound in the outer scope as well, where
    it has stayed on record, the sweep goes through the module and takes the result of the function, though the walk
    that found it did not come to the outer scope, and would end in the module again. -/
theorem binding_invalidates_shadowed : ¬ ∀ (s₀ s : Store) (op : Operation) (b a : ActivationId) (n : Name) (f : Finding)
    (path : List ActivationId) (r : LookupResult) (v : Value), Settled s₀ → (∀ q ∈ op.operands, q ∈ s₀.roots) →
    op.LooksUpFrom s₀ b n → s₀.walk n s₀.chainBound b = some (f, path) →
    ((op.perform s₀).layout (s₀.layoutOf b)).memo? n = some r → s₀.lookups.size ≤ r.guard.index →
    SettledRun (op.perform s₀) s → Ref.activation a ∈ s.roots → (∀ q ∈ v.refs, q ∈ s.roots) →
    s.Unbinds (s.layoutOf a) n → (∀ c ∈ path, s₀.layoutOf c ≠ s.layoutOf a) → s.resultValid r = true →
    ((Operation.define a n v).perform s).resultValid r = true := by
  intro hclaim
  let ops : List Operation := [.newLayout "l" .singleton {}, .newScope ⟨0⟩ none 0, .newLayout "m" .singleton {},
    .newScope ⟨1⟩ (some ⟨0⟩) 0, .newLayout "d" .singleton {}, .newScope ⟨2⟩ (some ⟨1⟩) 0, .resolve ⟨2⟩ ⟨2⟩,
    .define ⟨1⟩ ⟨2⟩ (.int 1)]
  let s₀ := ops.foldl Operation.perform (.new ["x"])
  let op : Operation := .resolve ⟨2⟩ ⟨2⟩
  let s := op.perform s₀
  have h₀ : Settled s₀ := ⟨["x"], SettledRun.of_allFit (by decide +kernel)⟩
  have hu : s.Unbinds (s.layoutOf ⟨0⟩) ⟨2⟩ := by
    have hnone : (s.layout (s.layoutOf ⟨0⟩)).slotIndex? ⟨2⟩ = none := by decide +kernel
    intro i hi
    rw [hnone] at hi
    cases hi
  have hvalid := hclaim s₀ s op ⟨2⟩ ⟨0⟩ ⟨2⟩ (.stable ⟨1⟩) [⟨2⟩, ⟨1⟩] (.stable ⟨1⟩ ⟨1⟩) (.int 2) h₀ (by decide +kernel)
    ⟨rfl, rfl⟩ (by decide +kernel) (by decide +kernel) (by decide +kernel) .refl (by decide +kernel)
    (by simp [Value.refs]) hu (by decide +kernel) (by decide +kernel)
  have hinvalid : ((Operation.define ⟨0⟩ ⟨2⟩ (.int 2)).perform s).resultValid (.stable ⟨1⟩ ⟨1⟩) = false := by
    decide +kernel
  rw [hinvalid] at hvalid
  exact absurd hvalid Bool.false_ne_true

end Store

end ScopeCall
