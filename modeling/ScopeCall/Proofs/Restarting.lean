import ScopeCall.Proofs.Passing

/-!
# `ScopeCall.Proofs.Restarting` — a layout that starts over

A layout that admits one activation knows it for as long as it is alive. When another takes its place, the slots
are emptied and what was looked up through the layout is forgotten, so that nothing of the first shows through:
not in the new scope, not by a token that is still valid, and not by a result that was found before.

The last takes that a layout where such a result is remembered has stayed nested. A result that a sweep did not
reach, because a layout between had died, is not reached later either.

## Contents
- **Forests.** `Store.Forest`: layouts are never nested in a circle.
- **Lookups.** `Store.LooksThrough`, and what is on record afterwards.
- **Staying.** `Store.StaysIn`: a layout stays nested in another while a result may be trusted.
- **Restarts.** `Store.Activates`, and `singleton_restarts_clean`.
-/

namespace ScopeCall

namespace Store

variable {s s₁ s₂ : Store} {l k : LayoutId} {a b : ActivationId} {n : Name} {r : LookupResult}

/-! ## Forests -/

/-- Layouts are registered, and not nested in a circle. -/
structure Rooted (s : Store) : Prop where
  sound : s.Sound
  registered : s.Registered
  acyclic : s.Acyclic

/-- One step, after which layouts are not nested in a circle. -/
structure ForestStep (s s' : Store) : Prop where
  step : s.Step s'
  acyclic : s'.Acyclic

/-- A store that a program can come to by such steps. -/
def Forest (s : Store) : Prop := ∃ names, Relation.ReflTransGen ForestStep (.new names) s

/-- **Every such step keeps layouts registered.** -/
theorem ForestStep.rooted (h : s.ForestStep s₁) (hr : s.Rooted) : s₁.Rooted := by
  refine ⟨(h.step.progress hr.sound).sound, ?_, h.acyclic⟩
  have hloop := h.acyclic.loopless
  cases h.step with
  | operate op hheld => exact registered_perform hr.sound hheld hr.registered hloop
  | elsewhere helse => exact helse.registered hr.sound hr.registered

theorem rooted_new (names : List String) : (Store.new names).Rooted where
  sound := sound_new names
  registered := registered_new names
  acyclic _ _ hp _ := absurd (((parent_eq_some_iff (sound_new names).wellFormed).1 hp).2.allocated
    (sound_new names).wellFormed) (Nat.not_lt_zero _)

/-- What every step keeps, a run keeps. -/
theorem Forest.rooted (h : s.Forest) : s.Rooted := by
  obtain ⟨names, hrun⟩ := h
  induction hrun with
  | refl => exact rooted_new names
  | tail _ hstep ih => exact hstep.rooted ih

theorem Forest.reachable (h : s.Forest) : Reachable s := by
  obtain ⟨names, hrun⟩ := h
  exact ⟨names, Relation.ReflTransGen.mono (fun _ _ hstep => hstep.step) _ _ hrun⟩

/-- Where links have stayed, no circle has come up. -/
theorem Acyclic.of_enclosing (h : s.Acyclic) (hs : s.WellFormed) (hs₁ : s₁.WellFormed)
    (henclosing : ∀ k, (s₁.layout k).enclosing = (s.layout k).enclosing)
    (hback : ∀ k, s₁.Live (.layout k) → s.Allocated (.layout k) → s.Live (.layout k)) : s₁.Acyclic := by
  have hparent : ∀ {k p}, s₁.parent k = some p → s.parent k = some p := fun hp => by
    obtain ⟨hlink, hlive⟩ := (parent_eq_some_iff hs₁).1 hp
    exact parent_before hs hback ((henclosing _).symm.trans hlink) hlive
  exact fun k p hp hnested =>
    h k p (hparent hp) (Relation.ReflTransGen.mono (fun _ _ hq => hparent hq) _ _ hnested)

/-- Every layout is nested in one that was made before it. -/
def OuterFirst (s : Store) : Prop := ∀ k < s.layouts.size, (s.parent ⟨k⟩).all (·.index < k) = true

instance (s : Store) : Decidable s.OuterFirst := inferInstanceAs (Decidable (∀ k < s.layouts.size, _))

theorem OuterFirst.acyclic (h : s.OuterFirst) : s.Acyclic := by
  have hlt : ∀ {j q}, s.parent j = some q → q.index < j.index := fun {j q} hq => by
    have hj : s.Allocated (.layout j) := by
      by_contra hnot
      simp only [Allocated, Nat.not_lt] at hnot
      have hlink := parent_eq_some hq
      simp [layout, Array.getElem?_eq_none hnot, default, instInhabitedLayout.default] at hlink
    have hall := h j.index hj
    rw [show s.parent ⟨j.index⟩ = some q from hq] at hall
    simpa using hall
  have hle : ∀ {j q}, s.NestedIn j q → q.index ≤ j.index := fun hq => by
    induction hq with
    | refl => exact Nat.le_refl _
    | tail _ hstep ih => exact (hlt hstep).le.trans ih
  exact fun k p hp hnested => absurd (hle hnested) (Nat.not_le.2 (hlt hp))

theorem ForestStep.of_allFit {ops : List Operation}
    (h : allFit (fun s op => decide (op.perform s).OuterFirst) s ops = true) :
    Relation.ReflTransGen ForestStep s (ops.foldl Operation.perform s) :=
  steps_of_allFit (fun _ op hheld hfit => ⟨.operate op hheld, (of_decide_eq_true hfit).acyclic⟩) h

/-! ## Lookups -/

section Lookup

variable {op : Operation} {f : Finding} {path : List ActivationId}

/-- A walk that ends leaves its name on record where it has passed. -/
theorem recorded_remembering (hs : s.Sound) (ha : s.Live (.activation a))
    (hw : s.walk n s.chainBound a = some (f, path)) (hb : b ∈ path) :
    n ∈ ((s.remembering a n f path).layout (s.layoutOf b)).recorded := by
  have hrecorded : ∀ c ∈ path, ∀ label,
      n ∈ (((s.addLookup label).recordWalk n path).layout (s.layoutOf c)).recorded := fun c hc label =>
    ((s.addLookup label).mem_recordWalk n n path _).2 (Or.inr ⟨rfl,
      ((live_of_mem_path hs.wellFormed ha hw c hc).layoutOf hs.wellFormed).allocated hs.wellFormed, c, hc, rfl⟩)
  unfold remembering
  dsimp only
  rw [(memoizes_memoize (hrecorded a (mem_path_of_walk hw) _) _).layout]
  exact hrecorded b hb _

/-- A name is on record all the way of a walk, if it is at each layout that the walk has passed. -/
theorem RecordedUpTo.of_walk (hs₁ : s₁.WellFormed) (hactivations : s₁.activations = s.activations)
    (henclosing : ∀ k, (s₁.layout k).enclosing = (s.layout k).enclosing)
    (hrecorded : ∀ b ∈ path, n ∈ (s₁.layout (s.layoutOf b)).recorded) {fuel : Nat}
    (ha : s₁.Live (.activation a)) (hw : s.walk n fuel a = some (f, path)) (hb : b ∈ path) :
    s₁.RecordedUpTo n (s.layoutOf b) (s.layoutOf a) := by
  have hactivation : ∀ c, s₁.activation c = s.activation c := fun c => by
    rw [activation, hactivations, ← activation]
  have hlayoutOf : ∀ c, s₁.layoutOf c = s.layoutOf c := fun c => by rw [layoutOf, hactivation, ← layoutOf]
  replace hw := walks_of_walk hw
  induction hw with
  | stop | root =>
      obtain rfl := List.mem_singleton.1 hb
      exact .here (hrecorded _ hb)
  | @up _ a next _ _ _ halong hnext _ ih =>
      obtain ⟨hhere, hpassed⟩ := List.forall_mem_cons.1 hrecorded
      have hnextLive := ha.enclosing hs₁ ((congrArg Activation.enclosing (hactivation a)).trans hnext)
      rcases List.mem_cons.1 hb with rfl | hb
      · exact .here hhere
      · -- The walk goes on along the link of the layout, to an activation that is alive.
        exact .up hhere ((parent_eq_some_iff hs₁).2 ⟨(henclosing _).trans halong,
          hlayoutOf next ▸ hnextLive.layoutOf hs₁⟩) (ih hpassed hnextLive hb)

/-- A lookup has walked from an activation of `k` and through one of `l`, and has found what `k` remembers. -/
structure LooksThrough (s : Store) (op : Operation) (k l : LayoutId) (n : Name) (r : LookupResult) : Prop where
  held : ∀ q ∈ op.operands, q ∈ s.roots
  remembered : ((op.perform s).layout k).memo? n = some r
  /-- The result was made by this lookup. -/
  made : s.lookups.size ≤ r.guard.index
  passed : ∃ a f path, op.LooksUpFrom s a n ∧ s.layoutOf a = k ∧ s.walk n s.chainBound a = some (f, path)
    ∧ ∃ b ∈ path, s.layoutOf b = l

theorem LooksThrough.looksUp (h : s.LooksThrough op k l n r) : op.LooksUp := by
  obtain ⟨a, f, path, hop, -⟩ := h.passed
  cases op <;> first | exact trivial | exact hop.elim

/-- **A lookup leaves its name on record all the way up.** -/
theorem LooksThrough.recordedUpTo (h : s.LooksThrough op k l n r) (hs : s.Sound) (ho : s.Orderly) :
    (op.perform s).RecordedUpTo n l k := by
  obtain ⟨hheld, hmemo, hmade, a, f, path, hop, rfl, hw, b, hb, rfl⟩ := h
  have hs₁ := (progress_perform hs hheld).sound.wellFormed
  have ha := live_of_mem_roots (mem_roots_of_looksUpFrom hop hheld)
  obtain ⟨s₁, hfound, hlayouts, hactivations, -, hroots⟩ := perform_lookup hop
  have hlayout : ∀ k, (op.perform s).layout k = s₁.layout k := fun k => by rw [layout, hlayouts, ← layout]
  -- The guard of what is remembered was not there before, so the walk was made for it.
  have hnew : s₁ ≠ s := by
    rintro rfl
    rw [hlayout] at hmemo
    exact absurd (ho.memoGuards _ n r hmemo) (Nat.not_lt.2 hmade)
  obtain rfl := hfound.resolve_left hnew
  have ha₁ : Ref.activation a ∈ (op.perform s).roots := by
    rw [hroots, (spares_resolve hs.wellFormed ha n).1.held]
    exact mem_roots_of_looksUpFrom hop hheld
  have heq : ((resolve a n).run s).2 = s.remembering a n f path := by
    rw [resolve_run, resolveAnew_run, hw] at hnew ⊢
    split
    · rename_i q hq
      split
      · rename_i hvalid
        simp [hq, hvalid] at hnew
      · rfl
    · rfl
  rw [heq] at hlayout hactivations
  have hlearns := learns_remembering hs ha hw
  exact .of_walk hs₁ (hactivations.trans hlearns.scopes.activations)
    (fun k => by rw [hlayout, hlearns.scopes.enclosing])
    (fun c hc => hlayout _ ▸ recorded_remembering hs ha hw hc) (live_of_mem_roots ha₁) hw hb

end Lookup

/-! ## Staying -/

/-- One step, after which `k` is still nested in `l`, if the result with the guard `g` may be trusted. -/
structure StaysIn (k l : LayoutId) (g : LookupId) (s s' : Store) : Prop extends ForestStep s s' where
  nested : s'.lookupValid g = true → s'.NestedIn k l

/-- A result has been made, and as long as it may be trusted, it is remembered, and its name is on record all
    the way up. -/
structure OnRecord (s : Store) (k l : LayoutId) (n : Name) (r : LookupResult) : Prop where
  made : r.guard.index < s.lookups.size
  allocated : s.Allocated (.layout k)
  recorded : s.Live (.layout k) → s.lookupValid r.guard = true →
    (s.layout k).memo? n = some r ∧ s.RecordedUpTo n l k

/-- **A step keeps on record what stays.** -/
theorem StaysIn.onRecord (h : StaysIn k l r.guard s s₁) (hr : s.Rooted) (ho : s.OnRecord k l n r) :
    s₁.OnRecord k l n r := by
  have hprogress := h.step.progress hr.sound
  have hguides : ∃ stays, s.Guides s₁ n l stays := by
    cases h.step with
    | operate op hheld => exact guides_perform hr.sound hr.registered hr.acyclic hheld h.acyclic.loopless
    | elsewhere helse => exact ⟨_, helse.guides hr.sound.wellFormed hr.registered⟩
  obtain ⟨stays, hguides⟩ := hguides
  refine ⟨Nat.lt_of_lt_of_le ho.made (h.step.size_lookups hr.sound), hprogress.grows _ ho.allocated,
    fun hlive hvalid => ?_⟩
  obtain ⟨hmemo, hrecorded⟩ := ho.recorded (hprogress.back k hlive ho.allocated) (hguides.fallen _ ho.made hvalid)
  obtain ⟨hmemo₁, hstays⟩ := hguides.kept k r hmemo hvalid
  exact ⟨hmemo₁, hguides.recordedUpTo hprogress.sound.wellFormed hrecorded (hstays hrecorded.recorded) hlive
    (h.nested hvalid)⟩

/-- What a step keeps on record, a run does. -/
theorem onRecord_of_stays (hrun : Relation.ReflTransGen (StaysIn k l r.guard) s s₁) (hr : s.Rooted)
    (ho : s.OnRecord k l n r) : s₁.Rooted ∧ s₁.OnRecord k l n r := by
  induction hrun with
  | refl => exact ⟨hr, ho⟩
  | tail _ hstep ih => exact ⟨hstep.rooted ih.1, hstep.onRecord ih.1 ih.2⟩

/-- A lookup puts its result on record. -/
theorem LooksThrough.onRecord {op : Operation} (h : s.LooksThrough op k l n r) (hr : s.Rooted) (ho : s.Orderly) :
    (op.perform s).Rooted ∧ (op.perform s).OnRecord k l n r := by
  have hprogress := progress_perform hr.sound h.held
  have hs := hr.sound.wellFormed
  have hs₁ := hprogress.sound.wellFormed
  have hacyclic : (op.perform s).Acyclic :=
    hr.acyclic.of_enclosing hs hs₁ (adds_perform hr.sound h.held h.looksUp).enclosing hprogress.back
  exact ⟨⟨hprogress.sound, registered_perform hr.sound h.held hr.registered hacyclic.loopless, hacyclic⟩,
    (orderly_perform hr.sound h.held ho).memoGuards k n r h.remembered, allocated_of_memo h.remembered,
    fun _ _ => ⟨h.remembered, h.recordedUpTo hr.sound ho⟩⟩

/-! ## Restarts -/

/-- `s'` is `s` after an activation of `l` has been made, which is `a`. -/
inductive Activates (s : Store) (l : LayoutId) (a : ActivationId) : Store → Prop where
  | mk (enclosing : Option ActivationId) (depth : Nat)
    (h : ∀ r ∈ (Operation.newScope l enclosing depth).operands, r ∈ s.roots)
    (hok : ((newScope l enclosing depth).run.run s).1 = .ok a) :
    Activates s l a ((Operation.newScope l enclosing depth).perform s)

theorem Activates.step (h : s.Activates l a s₁) : s.Step s₁ := by
  obtain ⟨enclosing, depth, hheld, -⟩ := h
  exact .operate _ hheld

theorem perform_newScope {enclosing : Option ActivationId} {depth : Nat}
    (hok : ((newScope l enclosing depth).run.run s).1 = .ok a) :
    (Operation.newScope l enclosing depth).perform s
      = ((newScope l enclosing depth).run.run s).2.acquire [.activation a] := by
  rw [Operation.perform]
  generalize (newScope l enclosing depth).run.run s = result at hok ⊢
  rcases result with ⟨e | b, s₁⟩
  · cases hok
  · rw [Except.ok.inj hok]

/-- The new activation is held, and nothing is stored in it. -/
theorem Activates.opened (h : s.Activates l a s₁) : Ref.activation a ∈ s₁.roots ∧ ¬ s.Allocated (.activation a)
    ∧ s₁.layoutOf a = l ∧ (s₁.activation a).contents = #[] := by
  obtain ⟨enclosing, depth, -, hok⟩ := h
  obtain ⟨rfl, hpush⟩ := newScope_ok (Prod.ext hok rfl)
  rw [perform_newScope hok]
  have hact : ∀ rs, (((newScope l enclosing depth).run.run s).2.acquire rs).activation ⟨s.activations.size⟩
      = s.entrant l enclosing depth := fun rs => by
    simp [activation, acquire, hpush, entrant]
  refine ⟨?_, Nat.lt_irrefl _, ?_, ?_⟩
  · simp [roots, acquire]
  · rw [layoutOf, hact]
    rfl
  · rw [hact]
    rfl

theorem Activates.kind (h : s.Activates l a s₁) (hs : s.Sound) : (s₁.layout k).kind = (s.layout k).kind := by
  obtain ⟨enclosing, depth, hheld, -⟩ := h
  obtain ⟨hl, he⟩ := held_optional hheld
  exact (opens_perform hs hl he depth).kind k

/-- A layout that had an activation before is swept when it is entered. -/
theorem not_recorded_enter {enclosing : Option ActivationId} {depth : Nat} (hs : s.Sound)
    (hl : Ref.layout l ∈ s.roots) (he : ∀ b, enclosing = some b → Ref.activation b ∈ s.roots)
    (hk : (s.layout l).kind.isSingleton = true) (hclaimed : (s.layout l).singleton ≠ none)
    (hok : ((enter l enclosing depth).run.run s).1 = .ok a) :
    n ∉ (((enter l enclosing depth).run.run s).2.layout l).recorded := by
  rw [enter_run, if_pos hk] at hok ⊢
  split at hok
  · cases hok
  · rename_i hfree
    rw [if_neg hfree]
    dsimp only
    rw [if_pos (Option.isSome_iff_ne_none.2 hclaimed)]
    have hlive := live_of_mem_roots hl
    have hreclaim := (advances_reclaimed depth hs hlive (fun b hb => live_of_mem_roots (he b hb))
      fun b => hs.layoutOf_ne hk hfree).1
    exact not_recorded_sweep forgetting_forgetAll (hreclaim.sound hs).wellFormed
      (hreclaim.leads.grows _ (hlive.allocated hs.wellFormed)) trivial

theorem Activates.not_recorded (h : s.Activates l a s₁) (hs : s.Sound)
    (hk : (s.layout l).kind.isSingleton = true) (hclaimed : (s.layout l).singleton ≠ none) :
    n ∉ (s₁.layout l).recorded := by
  obtain ⟨enclosing, depth, hheld, hok⟩ := h
  obtain ⟨hl, he⟩ := held_optional hheld
  rw [perform_newScope hok]
  show n ∉ (((newScope l enclosing depth).run.run s).2.layout l).recorded
  rcases newScope_cases s l enclosing depth with heq | ⟨e, heq⟩ | ⟨b, rfl, -, heq⟩
  · rw [heq] at hok ⊢
    exact not_recorded_enter hs hl he hk hclaimed hok
  · rw [heq] at hok
    cases hok
  · have hp := hs.wellFormed.layoutOf (he b rfl)
    have hlink := ((Spares.refl s).linked (hs.wellFormed.roots _ hl) hp).advances hs
    have hw := s.rewires_linked l (s.layoutOf b)
    rw [heq] at hok ⊢
    refine not_recorded_enter (hlink.sound hs) (hlink.mem_roots hl) (hlink.mem_roots_activation he) ?_ ?_ hok
    · rwa [hw.layout]
    · rwa [hw.layout]

/-- What was found is bound in `l`. -/
def BoundIn (s : Store) (l : LayoutId) : LookupResult → Prop
  | .stable t _    => ∃ i, s.token l i = some t
  | .boundAt b _ _ => s.Allocated (.activation b) ∧ s.layoutOf b = l
  | .unbound _     => False

/-- The activation that a layout names is the live one, if it admits one. -/
theorem singletonActivation_eq_some_iff (hs : s.Sound) (ho : s.Orderly)
    (hk : (s.layout l).kind.isSingleton = true) :
    s.singletonActivation l = some a ↔ s.Live (.activation a) ∧ s.layoutOf a = l := by
  have hnamed : s.singletonActivation l = some a
      ↔ (s.layout l).singleton = some a ∧ s.isLive (.activation a) = true := by
    cases hsingle : (s.layout l).singleton with
    | none => simp [singletonActivation, hsingle]
    | some b =>
        simp only [singletonActivation, hsingle, Option.bind_some, upgradeActivation,
          Option.ite_none_right_eq_some, Option.some_inj]
        constructor
        · rintro ⟨hlive, rfl⟩
          exact ⟨rfl, hlive⟩
        · rintro ⟨rfl, hlive⟩
          exact ⟨hlive, rfl⟩
  rw [hnamed]
  constructor
  · rintro ⟨hsingle, hlive⟩
    obtain ⟨halloc, hl⟩ := ho.named l a hsingle
    exact ⟨(isLive_iff hs.wellFormed halloc).1 hlive, hl⟩
  · rintro ⟨hlive, rfl⟩
    exact ⟨hs.bindings.unique a hlive hk, (isLive_iff hs.wellFormed (hlive.allocated hs.wellFormed)).2 hlive⟩

section Restarted

variable {s₀ : Store} (h : s.Activates l a s₁) (hs : s.Sound)
include h hs

/-- A token of the layout that is still valid has no value. -/
theorem Activates.value_eq_none {i : Nat} {t : StableId} (hs₀ : s₀.Sound) (hrun : Run s₀ s₁)
    (ht : s₀.token l i = some t) (hvalid : s₁.stableValid t = true) : (s₁.stable t).value = none := by
  obtain ⟨hheld, -, hl, hcontents⟩ := h.opened
  have hs₁ := (h.step.progress hs).sound
  have htoken := (hrun.progress hs₀).token ht hvalid
  rw [← hl] at htoken
  have hagree := hs₁.bindings.agree a i t (live_of_mem_roots hheld) htoken not_false
  rw [content, Activation.content, hcontents] at hagree
  cases hvalue : (s₁.stable t).value with
  | none => rfl
  | some v => simp [hvalue, SlotContent.ofOption] at hagree

/-- The activations that the layout had before are dead. -/
theorem Activates.not_live (hk : (s.layout l).kind.isSingleton = true) (hb : s.Allocated (.activation b))
    (hl : s.layoutOf b = l) : ¬ s₁.Live (.activation b) := by
  intro hlive
  obtain ⟨hheld, hnew, hla, -⟩ := h.opened
  have hs₁ := (h.step.progress hs).sound
  have hlb := ((h.step.claims hs).scopes b hb).2.trans hl
  rw [← h.kind hs] at hk
  have hb₁ := hs₁.bindings.unique b hlive (hlb ▸ hk)
  have ha₁ := hs₁.bindings.unique a (live_of_mem_roots hheld) (hla ▸ hk)
  rw [hlb] at hb₁
  rw [hla, hb₁] at ha₁
  exact hnew (Option.some.inj ha₁ ▸ hb)

/-- **What was found in the layout before gives no information.** -/
theorem Activates.readResult_of_boundIn (hk : (s.layout l).kind.isSingleton = true) (hs₀ : s₀.Sound)
    (hrun : Run s₀ s) (hr : s₀.BoundIn l r) : s₁.readResult r = .noInformation := by
  unfold readResult
  split
  · rename_i hvalid
    cases r with
    | stable t g =>
        obtain ⟨i, ht⟩ := hr
        dsimp only
        rw [h.value_eq_none hs hs₀ (hrun.tail h.step) ht (Bool.and_eq_true_iff.1 hvalid).2]
        rfl
    | boundAt b slot g =>
        obtain ⟨halloc, hl⟩ := hr
        obtain ⟨hscope, hlayout⟩ := (hrun.claims hs₀).scopes b halloc
        have hs₁ := h.step.progress hs
        have hdead := h.not_live hs hk hscope (hlayout.trans hl)
        dsimp only
        rw [upgradeActivation, if_neg, Option.bind_none]
        · rfl
        · exact fun hlive => hdead ((isLive_iff hs₁.sound.wellFormed (hs₁.grows _ hscope)).1 hlive)
    | unbound g => exact hr.elim
  · rfl

end Restarted

/-- **A layout that admits one activation starts over clean.** The live activation that it names is the only one.
    When another is made, each slot of it is empty in every context, no token of the layout with a value is valid,
    and no result that was bound in the layout gives information. Nor does one that was found by way of the layout,
    and is remembered at a layout that has stayed nested in it. -/
theorem singleton_restarts_clean (h : Reachable s) (hk : (s.layout l).kind.isSingleton = true) :
    (∀ a, s.singletonActivation l = some a ↔ s.Live (.activation a) ∧ s.layoutOf a = l)
    ∧ ∀ a s', s.Activates l a s' →
      (∀ i context, s'.readIn a i context = none)
      ∧ (∀ s₀ i t, Reachable s₀ → Run s₀ s' → s₀.token l i = some t → s'.stableValid t = true →
        (s'.stable t).value = none)
      ∧ (∀ s₀ r, Reachable s₀ → Run s₀ s → s₀.BoundIn l r → s'.readResult r = .noInformation)
      ∧ ∀ (s₀ : Store) (op : Operation) k n r, s₀.Forest → (s₀.layout l).kind.isSingleton = true →
        s₀.LooksThrough op k l n r → Relation.ReflTransGen (StaysIn k l r.guard) (op.perform s₀) s →
        StaysIn k l r.guard s s' → s'.Live (.layout k) → s'.readResult r = .noInformation := by
  have hs := h.sound
  refine ⟨fun a => singletonActivation_eq_some_iff hs h.orderly hk, fun a s' hact => ⟨fun i context => ?_,
    fun s₀ i t h₀ hrun ht hvalid => hact.value_eq_none hs h₀.sound hrun ht hvalid,
    fun s₀ r h₀ hrun hr => hact.readResult_of_boundIn hs hk h₀.sound hrun hr,
    fun s₀ op k n r h₀ hk₀ hlooks hrun hstays hlive => ?_⟩⟩
  · rw [readIn, content, Activation.content, hact.opened.2.2.2]
    rfl
  · obtain ⟨hrooted, hrecord⟩ := hlooks.onRecord h₀.rooted h₀.reachable.orderly
    obtain ⟨-, hrecord⟩ := onRecord_of_stays (hrun.tail hstays) hrooted hrecord
    -- The layout had an activation when the lookup passed it, so it is swept now.
    have hclaimed : (s₀.layout l).singleton ≠ none := by
      obtain ⟨a₀, f, path, hop, -, hw, b, hb, rfl⟩ := hlooks.passed
      have hb := live_of_mem_path h₀.rooted.sound.wellFormed
        (live_of_mem_roots (mem_roots_of_looksUpFrom hop hlooks.held)) hw b hb
      simp [h₀.rooted.sound.bindings.unique b hb hk₀]
    have hsteps : Run (op.perform s₀) s := Relation.ReflTransGen.mono (fun _ _ hstep => hstep.step) _ _ hrun
    have hwhole : Run s₀ s := hsteps.head (.operate op hlooks.held)
    have hforgot := hact.not_recorded (n := n) hs hk ((hwhole.claims h₀.rooted.sound).claimed hclaimed)
    unfold readResult
    rw [if_neg]
    intro hvalid
    rw [resultValid_eq, Bool.and_eq_true] at hvalid
    exact hforgot (hrecord.recorded hlive hvalid.1).2.recorded_last

/-- A module with a variable is opened again after a function in it has looked for another. -/
theorem unbound_of_restarted :
    let ops : List Operation := [.newLayout "s" .singleton {}, .newScope ⟨0⟩ none 0, .define ⟨0⟩ ⟨3⟩ (.int 1),
      .newLayout "c" .function {}, .newScope ⟨1⟩ (some ⟨0⟩) 0]
    let s₀ := ops.foldl Operation.perform (.new ["x", "y"])
    let op : Operation := .resolve ⟨1⟩ ⟨2⟩
    let s := (op.perform s₀).release [.activation ⟨1⟩, .activation ⟨0⟩]
    let s' := (Operation.newScope ⟨0⟩ none 0).perform s
    Reachable s ∧ (s.layout ⟨0⟩).kind.isSingleton = true ∧ s.singletonActivation ⟨0⟩ = none
      ∧ s.Activates ⟨0⟩ ⟨2⟩ s' ∧ s'.readIn ⟨2⟩ 0 0 = none
      ∧ (op.perform s₀).readResult (.unbound ⟨0⟩) = .unbound ∧ s'.readResult (.unbound ⟨0⟩) = .noInformation := by
  intro ops s₀ op s s'
  have hforest : s₀.Forest := ⟨["x", "y"], ForestStep.of_allFit (by decide +kernel)⟩
  have hlooks : s₀.LooksThrough op ⟨1⟩ ⟨0⟩ ⟨2⟩ (.unbound ⟨0⟩) :=
    ⟨by decide +kernel, by decide +kernel, by decide +kernel, ⟨1⟩, .unbound, [⟨1⟩, ⟨0⟩], ⟨rfl, rfl⟩,
      by decide +kernel, by decide +kernel, ⟨0⟩, by decide, by decide +kernel⟩
  have hrelease : StaysIn ⟨1⟩ ⟨0⟩ ⟨0⟩ (op.perform s₀) s :=
    ⟨⟨.elsewhere (elsewhere_release _ _), OuterFirst.acyclic (by decide +kernel)⟩,
      fun _ => .single (by decide +kernel)⟩
  have hact : s.Activates ⟨0⟩ ⟨2⟩ s' := .mk none 0 (by decide +kernel) (by decide +kernel)
  have hreopen : StaysIn ⟨1⟩ ⟨0⟩ ⟨0⟩ s s' :=
    ⟨⟨hact.step, OuterFirst.acyclic (by decide +kernel)⟩, fun _ => .single (by decide +kernel)⟩
  have hreach : Reachable s := by
    obtain ⟨names, hrun⟩ := hforest.reachable
    exact ⟨names, (hrun.tail (.operate op hlooks.held)).tail hrelease.step⟩
  have hk : (s.layout ⟨0⟩).kind.isSingleton = true := by decide +kernel
  obtain ⟨-, hclean⟩ := singleton_restarts_clean hreach hk
  obtain ⟨hempty, -, -, hfound⟩ := hclean ⟨2⟩ s' hact
  exact ⟨hreach, hk, by decide +kernel, hact, hempty 0 0, by decide +kernel,
    hfound s₀ op ⟨1⟩ ⟨2⟩ (.unbound ⟨0⟩) hforest (by decide +kernel) hlooks (.single hrelease) hreopen
      (live_of_mem_roots (by decide +kernel))⟩

/-- **A result is left behind**: between a module and a function, a scope is given up after the function has looked
    for a name through it. The name is bound in the module then, where it is taken from the record, and the sweep
    does not find the function. It is nested in the module itself after that, and the module is opened again; what
    the function remembers still says that the name is unbound. -/
theorem restart_leaves_stale : ¬ ∀ s₀ op k l n r s a s', Reachable s₀ → (s₀.layout l).kind.isSingleton = true →
    s₀.LooksThrough op k l n r → Run (op.perform s₀) s → s.Activates l a s' → s'.Live (.layout k) →
    s'.NestedIn k l → s'.readResult r = .noInformation := by
  intro hclaim
  let ops : List Operation := [.newLayout "s" .singleton {}, .newScope ⟨0⟩ none 0, .newLayout "p" .fresh {},
    .newScope ⟨1⟩ (some ⟨0⟩) 0, .newLayout "c" .function {}, .newScope ⟨2⟩ (some ⟨1⟩) 0]
  let s₀ := ops.foldl Operation.perform (.new ["x"])
  let op : Operation := .resolve ⟨2⟩ ⟨2⟩
  let s₁ := (op.perform s₀).release [.activation ⟨2⟩, .activation ⟨1⟩, .layout ⟨1⟩]
  let s₂ := [Operation.define ⟨0⟩ ⟨2⟩ (.int 1), .newScope ⟨2⟩ (some ⟨0⟩) 0].foldl Operation.perform s₁
  let s := s₂.release [.activation ⟨3⟩, .activation ⟨0⟩]
  let s' := (Operation.newScope ⟨0⟩ none 0).perform s
  have hlooks : s₀.LooksThrough op ⟨2⟩ ⟨0⟩ ⟨2⟩ (.unbound ⟨0⟩) :=
    ⟨by decide +kernel, by decide +kernel, by decide +kernel, ⟨2⟩, .unbound, [⟨2⟩, ⟨1⟩, ⟨0⟩], ⟨rfl, rfl⟩,
      by decide +kernel, by decide +kernel, ⟨0⟩, by decide, by decide +kernel⟩
  have hrun : Run (op.perform s₀) s := by
    have h₁ : Run (op.perform s₀) s₁ := .single (.elsewhere (elsewhere_release _ _))
    have h₂ : Run s₁ s₂ := Run.of_allHeld (by decide +kernel)
    exact (h₁.trans h₂).tail (.elsewhere (elsewhere_release _ _))
  have hact : s.Activates ⟨0⟩ ⟨4⟩ s' := .mk none 0 (by decide +kernel) (by decide +kernel)
  have hstale : s'.readResult (.unbound ⟨0⟩) = .unbound := by decide +kernel
  have hclean := hclaim s₀ op ⟨2⟩ ⟨0⟩ ⟨2⟩ (.unbound ⟨0⟩) s ⟨4⟩ s' ⟨["x"], Run.of_allHeld (by decide +kernel)⟩
    (by decide +kernel) hlooks hrun hact (live_of_mem_roots (by decide +kernel)) (.single (by decide +kernel))
  rw [hstale] at hclean
  exact absurd hclean (by decide)

end Store

end ScopeCall
