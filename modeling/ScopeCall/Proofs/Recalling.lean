import ScopeCall.Proofs.Assigning
import ScopeCall.Proofs.Bounding
import ScopeCall.Proofs.Relinking
import ScopeCall.Proofs.Restarting

/-!
# `ScopeCall.Proofs.Recalling` — closures can be called again

A closure is made with a layout of its own, nested in that of the scope it closes over. Each call nests a scope of
that layout in the scope closed over, and is refused if the layout has come to be nested elsewhere. Calls themselves
nest the layout nowhere else, and neither does what happens in between, but for operations that move the layout. So
a call ends in a fault only where the layout of the closure has been moved away by an operation, and then in one
fault only; whatever became of other scopes, a closure can be called again.

## Contents
- **Closures in place.** `Store.Placed` for one closure and `Store.InPlace` for all, and what keeps them.
- **Control.** Giving control to a closure: `invoke_answers`, and `relinks_invoke`.
- **Calls.** `Chain.evolves_callVia` and `Chain.callVia_answers`.
- **Steps.** `Store.ClosureStep`, and `ClosureStep.inPlace`: every step leaves closures in place.
- **Calling again.** `closures_answer`: which calls end in a fault.
-/

namespace ScopeCall

namespace Store

variable {s s₁ : Store} {l : LayoutId} {e caller : ActivationId} {c : CallableId} {t : TargetId}
  {may may' : LayoutId → LayoutId → Prop}

/-! ## Closures in place -/

/-- A closure with the layout `l` closes over the scope `e`. -/
def ClosesOver (s : Store) (l : LayoutId) (e : ActivationId) : Prop :=
  ∃ c t, (s.callable c).kind = .closure l e t

/-- The layout `l` of a closure admits many scopes, and is nested in the layout of the scope `e` that the closure
    closes over, if not where it may have been moved. -/
structure Placed (may : LayoutId → LayoutId → Prop) (s : Store) (l : LayoutId) (e : ActivationId) : Prop where
  layout : s.Allocated (.layout l)
  many : (s.layout l).kind.isSingleton = false
  scope : s.Allocated (.activation e)
  link : ∀ q, (s.layout l).enclosing = some q → q = s.layoutOf e ∨ may l q

/-- A closure stays where it is, unless its layout is moved as it may be. -/
theorem Placed.carry (h : s.Placed may l e) (hplaces : s.KeepsPlaces s₁) (hlayouts : s.KeepsLayouts s₁)
    (hlink : ∀ q, (s₁.layout l).enclosing = some q →
      (s.layout l).enclosing = some q ∨ q = s.layoutOf e ∨ may l q) : s₁.Placed may l e := by
  obtain ⟨hlayout, hkind⟩ := hlayouts l h.layout
  obtain ⟨hscope, hlayoutOf, -⟩ := hplaces e h.scope
  constructor
  case layout => exact hlayout
  case many => rw [hkind, h.many]
  case scope => exact hscope
  case link =>
    intro q hq
    rw [hlayoutOf]
    rcases hlink q hq with hold | hmoved
    · exact h.link q hold
    · exact hmoved

/-- Each closure is in place, and has its layout for itself. -/
structure InPlace (may : LayoutId → LayoutId → Prop) (s : Store) : Prop where
  furnished : s.Furnished
  placed : ∀ l e, s.ClosesOver l e → s.Placed may l e
  own : ∀ l e e', s.ClosesOver l e → s.ClosesOver l e' → e' = e

namespace InPlace

/-- Closures stay in place where none are added, and their layouts are moved only as they may be. -/
theorem carry (h : s.InPlace may) (hmarks : s.Marks (fun _ => True) s₁) (hlayouts : s.KeepsLayouts s₁)
    (hover : ∀ l e, s₁.ClosesOver l e → s.ClosesOver l e)
    (hlink : ∀ l e q, s.ClosesOver l e → (s₁.layout l).enclosing = some q →
      (s.layout l).enclosing = some q ∨ q = s.layoutOf e ∨ may l q) : s₁.InPlace may where
  furnished := hmarks.furnished h.furnished
  placed l e hl := (h.placed l e (hover l e hl)).carry hmarks.places hlayouts fun q => hlink l e q (hover l e hl)
  own l e e' hl hl' := h.own l e e' (hover l e hl) (hover l e' hl')

/-- Layouts are linked as `may'` allows, which is nothing new for a closure's. -/
theorem relinks (h : s.InPlace may) (hmarks : s.Marks (fun _ => True) s₁) (hlinks : s.Relinks may' s₁)
    (hmay : ∀ l e q, s.ClosesOver l e → may' l q → q = s.layoutOf e ∨ may l q) : s₁.InPlace may := by
  apply h.carry hmarks hlinks.layouts
  · intro l e hl
    unfold ClosesOver callable at hl ⊢
    rwa [← hlinks.callables]
  · intro l e q hl hq
    rcases hlinks.link l q (h.placed l e hl).layout hq with hold | hnew
    · exact Or.inl hold
    · exact Or.inr (hmay l e q hl hnew)

/-- A call moves nothing before it gives control to its callee. -/
theorem readied (h : s.InPlace may) (hs : s.Readied s₁) : s₁.InPlace may := by
  apply h.carry ((spans_marks _).readied hs h.furnished)
  · intro k hk
    obtain ⟨hiff, hlayout⟩ := hs.layout k
    refine ⟨hiff.2 hk, ?_⟩
    rw [hlayout]
  · rintro l e ⟨c, t, hkind⟩
    exact ⟨c, t, (hs.kind c).symm.trans hkind⟩
  · intro l e q _ hq
    rw [(hs.layout l).2] at hq
    exact Or.inl hq

end InPlace

theorem callable_addFunction (s : Store) (target : CallTarget) (callable : Callable) (c : CallableId) :
    (s.addFunction target callable).callable c = if c.index = s.callables.size then callable else s.callable c :=
  Array.getD_push s.callables callable c.index

/-- What becomes of layouts when a closure is made: there is a new one, nested in that of the scope closed over. -/
theorem relinks_enclosed (s : Store) (spec : CallableSpec) (e : ActivationId) :
    s.Relinks (fun k q => k = ⟨s.layouts.size⟩ ∧ q = s.layoutOf e) (s.enclosed spec e)
      ∧ (s.enclosed spec e).Allocated (.layout ⟨s.layouts.size⟩)
      ∧ ((s.enclosed spec e).layout ⟨s.layouts.size⟩).kind = .function
      ∧ ∀ q, ((s.enclosed spec e).layout ⟨s.layouts.size⟩).enclosing = some q → q = s.layoutOf e := by
  have hnew : s.Relinks (fun k q => k = ⟨s.layouts.size⟩ ∧ q = s.layoutOf e) _ :=
    relinks_newLayout s (spec.label.getD CallableSpec.anonymous) .function {}
  have hl : ((newLayout (spec.label.getD CallableSpec.anonymous) .function {}).run s).2.Allocated
      (.layout ⟨s.layouts.size⟩) := Nat.lt_of_lt_of_eq (Nat.lt_succ_self _) (Array.size_push _).symm
  obtain ⟨-, -, hkind⟩ := layout_newLayout (spec.label.getD CallableSpec.anonymous) .function {} s
  unfold enclosed
  generalize ((newLayout (spec.label.getD CallableSpec.anonymous) .function {}).run s).2 = s₁ at hnew hl hkind ⊢
  have hlink : s₁.Relinks (fun k q => k = ⟨s.layouts.size⟩ ∧ q = s.layoutOf e) _ := relinks_linked s₁ ⟨rfl, rfl⟩
  have henclosing := enclosing_linked (p := s.layoutOf e) hl ⟨s.layouts.size⟩
  obtain ⟨hl₂, hkind₂⟩ := hlink.layouts _ hl
  generalize s₁.linked ⟨s.layouts.size⟩ (s.layoutOf e) = s₂ at hlink henclosing hl₂ hkind₂ ⊢
  have hslots : s₂.Relinks (fun _ _ => False) (s₂.slotted ⟨s.layouts.size⟩ spec.formals) :=
    relinks_slotted s₂ _ spec.formals
  obtain ⟨hl₃, hkind₃⟩ := hslots.layouts _ hl₂
  refine ⟨(hnew.trans hlink).trans (relinks_slotted s₂ _ spec.formals), hl₃,
    hkind₃.trans (hkind₂.trans hkind), fun q hq => ?_⟩
  rcases hslots.link _ q hl₂ hq with hold | hnone
  · rw [henclosing, if_pos rfl] at hold
    exact (Option.some.inj hold).symm
  · exact hnone.elim

/-- **A closure is made in place.** -/
theorem InPlace.newClosure (h : s.InPlace may) (spec : CallableSpec) (he : s.Allocated (.activation e))
    (body : BodyId) : ((newClosure spec e body).run.run s).2.InPlace may := by
  have hmarks : s.Marks (fun _ => True) _ := marks_newClosure s spec e body
  obtain ⟨hlinks, hl, hkind, henclosing⟩ := relinks_enclosed s spec e
  rw [newClosure_run] at hmarks ⊢
  generalize s.enclosed spec e = s₁ at hmarks hlinks hl hkind henclosing ⊢
  -- The layout of a closure that was there before is another one.
  have hother : ∀ l e, s.ClosesOver l e → l ≠ ⟨s.layouts.size⟩ := by
    rintro l e hl rfl
    exact Nat.lt_irrefl _ (h.placed _ e hl).layout
  have hover : ∀ l' e', (s₁.addFunction { body, dedicated := false }
      (spec.build (.closure ⟨s.layouts.size⟩ e ⟨s₁.targets.size⟩))).ClosesOver l' e' →
      (l' = ⟨s.layouts.size⟩ ∧ e' = e) ∨ s.ClosesOver l' e' := by
    rintro l' e' ⟨c, t, hc⟩
    rw [callable_addFunction] at hc
    split at hc
    · cases hc
      exact Or.inl ⟨rfl, rfl⟩
    · refine Or.inr ⟨c, t, ?_⟩
      rwa [callable, hlinks.callables] at hc
  constructor
  case furnished => exact hmarks.furnished h.furnished
  case placed =>
    intro l' e' hl'
    rcases hover l' e' hl' with ⟨rfl, rfl⟩ | hold
    · obtain ⟨hscope, hlayoutOf, -⟩ := hmarks.places e' he
      refine ⟨hl, congrArg LayoutKind.isSingleton hkind, hscope, fun q hq => ?_⟩
      rw [hlayoutOf]
      exact Or.inl (henclosing q hq)
    · apply (h.placed l' e' hold).carry hmarks.places hlinks.layouts
      intro q hq
      rcases hlinks.link l' q (h.placed l' e' hold).layout hq with hsame | ⟨hnew, -⟩
      · exact Or.inl hsame
      · exact absurd hnew (hother l' e' hold)
  case own =>
    intro l' e' e'' hl' hl''
    rcases hover l' e' hl' with ⟨rfl, rfl⟩ | hold
    · rcases hover _ e'' hl'' with ⟨-, rfl⟩ | hold'
      · rfl
      · exact absurd rfl (hother _ e'' hold')
    · rcases hover l' e'' hl'' with ⟨rfl, -⟩ | hold'
      · exact absurd rfl (hother _ e' hold)
      · exact h.own l' e' e'' hold hold'

/-! ## Control -/

theorem relinks_bindArguments (s : Store) (a : ActivationId) (args : List (Formal × Option Value)) :
    s.Relinks may ((bindArguments a args).run.run s).2 := by
  induction args generalizing s with
  | nil => exact .refl s
  | cons arg rest ih =>
      rcases arg with ⟨f, _ | v⟩
      · exact ih s
      · have hbind : s.Relinks may _ := relinks_bindName s a f.name v false
        rw [bindArguments_cons_run]
        generalize (bindName a f.name v false).run.run s = result at hbind ⊢
        rcases result with ⟨fault | _, s₁⟩
        · exact hbind
        · exact hbind.trans (ih s₁)

/-- **Giving control to a closure** nests its layout in that of the scope closed over, and nowhere else. -/
theorem relinks_invoke (hkind : (s.callable c).kind = .closure l e t) (maxDepth : Nat) (caller : ActivationId)
    (target : Option TargetId) (args : List (Option Value)) (demand : CallerDemand) :
    s.Relinks (fun k q => k = l ∧ q = s.layoutOf e)
      ((invoke maxDepth caller c target args demand).run.run s).2 := by
  rw [invoke_closure_run hkind]
  split
  · exact .of_eq rfl rfl rfl
  · have hheld : s.Relinks (fun k q => k = l ∧ q = s.layoutOf e) (s.hold (callRefs c args)) := .of_eq rfl rfl rfl
    have hnew := hheld.trans (relinks_newScope (s.hold (callRefs c args)) l (some e) (s.calleeDepth caller)
      fun _ b hb => ⟨rfl, Option.some.inj hb ▸ rfl⟩)
    generalize (newScope l (some e) (s.calleeDepth caller)).run.run (s.hold (callRefs c args)) = result at hnew ⊢
    rcases result with ⟨fault | a, s₁⟩
    · exact hnew
    · have hscope : s₁.Relinks (fun k q => k = l ∧ q = s.layoutOf e) (s₁.hold [.activation a]) :=
        .of_eq rfl rfl rfl
      have hbound := (hnew.trans hscope).trans
        (relinks_bindArguments _ a ((s.callable c).formals.zip args))
      dsimp only
      generalize (bindArguments a ((s.callable c).formals.zip args)).run.run (s₁.hold [.activation a]) = result
        at hbound ⊢
      rcases result with ⟨fault | _, s₂⟩
      · exact hbound
      · exact hbound.trans (.of_eq rfl rfl rfl)

/-- A layout that admits many scopes admits one more, unless it is nested elsewhere. -/
theorem newScope_of_many (hk : (s.layout l).kind.isSingleton = false) (e : ActivationId) (depth : Nat) :
    (∃ a s₁, (newScope l (some e) depth).run.run s = (.ok a, s₁))
      ∨ ∃ q, (s.layout l).enclosing = some q ∧ q ≠ s.layoutOf e
        ∧ (newScope l (some e) depth).run.run s = (.error (.enclosingMismatch (s.layout l).label
            (some (s.layout (s.layoutOf e)).label) (some (s.layout q).label)), s) := by
  have henter : ∀ s₁ : Store, (s₁.layout l).kind = (s.layout l).kind →
      ∃ a s₂, (enter l (some e) depth).run.run s₁ = (.ok a, s₂) := by
    intro s₁ hsame
    rw [enter_run, hsame, if_neg (Bool.eq_false_iff.1 hk)]
    exact ⟨_, _, rfl⟩
  rw [newScope_run]
  split
  · exact Or.inl (henter s rfl)
  · rw [initializeEnclosing_run]
    cases hparent : s.parent l with
    | none =>
        refine Or.inl (henter (s.linked l (s.layoutOf e)) ?_)
        rw [(rewires_linked s l (s.layoutOf e)).layout l]
    | some q =>
        dsimp only [Option.map_some]
        by_cases hsame : q = s.layoutOf e
        · rw [if_pos (congrArg some hsame)]
          exact Or.inl (henter s rfl)
        · rw [if_neg fun heq => hsame (Option.some.inj heq)]
          exact Or.inr ⟨q, parent_eq_some hparent, hsame, rfl⟩

/-- **A closure in place gets control**, or is refused for its depth; only one that has been moved is refused by a
    fault. -/
theorem invoke_answers (h : s.InPlace may) (hkind : (s.callable c).kind = .closure l e t) (maxDepth : Nat)
    (caller : ActivationId) (target : Option TargetId) (args : List (Option Value)) (demand : CallerDemand) :
    (∀ f, ((invoke maxDepth caller c target args demand).run.run s).1 ≠ .error (.internal f))
      ∨ ∃ q, (s.layout l).enclosing = some q ∧ q ≠ s.layoutOf e ∧ may l q
        ∧ ((invoke maxDepth caller c target args demand).run.run s).1
          = .error (.internal (.enclosingMismatch (s.layout l).label (some (s.layout (s.layoutOf e)).label)
              (some (s.layout q).label))) := by
  have hplaced := h.placed l e ⟨c, t, hkind⟩
  rw [invoke_closure_run hkind]
  split
  · refine Or.inl fun f hf => ?_
    cases hf
  · have hlinks : (s.hold (callRefs c args)).Relinks (fun _ _ => True) _ :=
      relinks_newScope _ l (some e) (s.calleeDepth caller) fun _ _ _ => trivial
    have hmany : ((s.hold (callRefs c args)).layout l).kind.isSingleton = false := hplaced.many
    rcases newScope_of_many hmany e (s.calleeDepth caller) with ⟨a, s₁, hrun⟩ | ⟨q, hq, hne, hrun⟩
    · rw [hrun] at hlinks ⊢
      obtain ⟨rfl, hactivations⟩ := newScope_ok hrun
      have hpush : (s₁.hold [.activation ⟨(s.hold (callRefs c args)).activations.size⟩]).activations
          = (s.hold (callRefs c args)).activations.push _ := hactivations
      dsimp only
      rcases bindArguments_of_push hpush (fun _ => rfl) ((s.callable c).formals.zip args) with
        ⟨s₂, hbind, -⟩ | ⟨hnone, -⟩
      · rw [hbind]
        refine Or.inl fun f hf => ?_
        cases hf
      · exact absurd (hlinks.layouts l hplaced.layout).1 hnone
    · rw [hrun]
      exact Or.inr ⟨q, hq, hne, (hplaced.link q hq).resolve_left hne, rfl⟩

/-- A call leaves closures in place, however it ends. -/
theorem InPlace.invoke (h : s.InPlace may) (maxDepth : Nat) (caller : ActivationId) (c : CallableId)
    (target : Option TargetId) (args : List (Option Value)) (demand : CallerDemand) :
    ((invoke maxDepth caller c target args demand).run.run s).2.InPlace may := by
  have hmarks := (spans_marks fun _ => True).stays_invoke maxDepth caller c target args demand s h.furnished
  cases hkind : (s.callable c).kind with
  | intrinsic body =>
      rw [invoke_intrinsic_run hkind] at hmarks ⊢
      have hlinks : s.Relinks may (s.hold (callRefs c args)) := .of_eq rfl rfl rfl
      exact h.relinks hmarks hlinks fun _ _ _ _ => Or.inr
  | closure l e t =>
      refine h.relinks hmarks (relinks_invoke hkind maxDepth caller target args demand) ?_
      rintro l' e' q hl' ⟨rfl, rfl⟩
      rw [h.own l' e e' ⟨c, t, hkind⟩ hl']
      exact Or.inl rfl

/-- The nodes of every call site lead to the functions that they are for. -/
def Sited (s : Store) : Prop :=
  ∀ i, s.Allocated (.site i) → ∃ owner, Chain.Assigned (s.site i).args (s.site i).nodes owner

theorem Sited.of_eq (h : s.Sited) (hsites : s₁.sites = s.sites) : s₁.Sited := by
  unfold Sited Allocated site at h ⊢
  rwa [hsites]

/-- A call makes no call sites. -/
theorem spans_sites : Spans fun s s' => s'.sites.size = s.sites.size where
  refl _ := rfl
  trans h h' := h'.trans h
  besides h := h.sites
  notes h := by rw [h.rest]
  newScope s l enclosing depth := congrArg Array.size (onlyScopes_newScope s l enclosing depth).sameCalls.sites
  findOrAddSlot s l n := congrArg Array.size (onlyScopes_findOrAddSlot s l n).sameCalls.sites
  write s a slot v := congrArg Array.size (onlyScopes_write s a slot v false).sameCalls.sites

end Store

/-! ## Calls -/

namespace Chain

open Store (InPlace Sited)

variable {σ : Type} {may : LayoutId → LayoutId → Prop} {getters : Getters σ} {i j : SiteId} {caller : ActivationId}
  {c : CallableId} {callee : Option CallableId} {m : Machine σ} {owner : Nat → Option CallableId}

/-- **A call leaves closures in place**, however it ends. -/
theorem inPlace_callVia (h : m.store.InPlace may) (getters : Getters σ) (i : SiteId) (caller : ActivationId)
    (callee : Option CallableId) : ((callVia getters i caller callee).run.run m).2.store.InPlace may := by
  obtain ⟨hreadied, -⟩ := prepares_prepareVia getters i caller callee m rfl
  have hprepared := h.readied hreadied
  rw [callVia_eq, thenEnter, EvalM.run_bind]
  generalize (prepareVia getters i caller callee).run.run m = result at hprepared ⊢
  rcases result with ⟨e | p, m₁⟩
  · exact hprepared
  · exact hprepared.invoke p.maxDepth caller p.callable p.target p.args p.demand

/-- Every call site is what it was after a call, but for the nodes of the one that is called through. -/
theorem evolves_callVia (getters : Getters σ) (i : SiteId) (caller : ActivationId)
    (callee : Option CallableId) (hj : m.store.Allocated (.site j)) : ∃ c fits, m.store.Evolves j
      (NodeStep (m.store.site j).args (m.store.site j).limits c fits)
      ((callVia getters i caller callee).run.run m).2.store := by
  have hexecute : ∀ (m : Machine σ) c, m.store.Allocated (.site j) → ∃ fits, m.store.Evolves j
      (NodeStep (m.store.site j).args (m.store.site j).limits c fits)
      ((execute getters i caller c).run.run m).2.store := by
    intro m c hj
    by_cases hsite : i = j
    · subst hsite
      exact ⟨_, evolves_execute getters hj rfl rfl caller c⟩
    · exact ⟨True, (leavesSite_execute hsite getters caller c m).evolves⟩
  cases callee with
  | some c => exact ⟨c, hexecute m c hj⟩
  | none =>
      have hcallee := calleeOf_within (EvalM.steady_meanwhile getters j) i caller m
      rw [callVia, executeSite_eq, EvalM.run_bind]
      generalize (calleeOf getters i caller).run.run m = result at hcallee ⊢
      rcases result with ⟨e | c, m₁⟩
      · exact ⟨default, True, hcallee.evolves⟩
      · obtain ⟨fits, hevolves⟩ := hexecute m₁ c (Nat.lt_of_lt_of_le hj hcallee.sites)
        rw [hcallee.site] at hevolves
        exact ⟨c, fits, hcallee.evolves.trans hevolves⟩

theorem sited_callVia (h : m.store.Sited) (getters : Getters σ) (i : SiteId) (caller : ActivationId)
    (callee : Option CallableId) : ((callVia getters i caller callee).run.run m).2.store.Sited := by
  intro j hj
  have hsize := within_callVia Store.spans_sites getters i caller callee m
  have hold : m.store.Allocated (.site j) := Nat.lt_of_lt_of_eq hj hsize
  obtain ⟨owner, hassigned⟩ := h j hold
  obtain ⟨c, fits, hevolves⟩ := evolves_callVia getters i caller callee hold
  rw [hevolves.site]
  exact hassigned.steps hevolves.nodes

/-- The function that a call is of. -/
def calleeVia (getters : Getters σ) (i : SiteId) (caller : ActivationId) :
    Option CallableId → EvalM σ CallableId
  | some c => pure c
  | none   => calleeOf getters i caller

theorem comesTo_prepareVia (hi : m.store.Allocated (.site i))
    (h : Assigned (m.store.site i).args (m.store.site i).nodes owner)
    (hcallee : ((calleeVia getters i caller callee).run.run m).1 = .ok c) :
    ComesTo c (prepareVia getters i caller callee) m := by
  cases callee with
  | some c' =>
      obtain rfl : c' = c := Except.ok.inj hcallee
      exact comesTo_prepare hi h
  | none => exact comesTo_prepareSite hi h hcallee

/-- A call that has no function to call does not end in a fault. -/
theorem callVia_of_error {err : EvalError}
    (hcallee : ((calleeVia getters i caller callee).run.run m).1 = .error err) (f : Fault) :
    ((callVia getters i caller callee).run.run m).1 ≠ .error (.internal f) := by
  cases callee with
  | some c => cases hcallee
  | none =>
      have hordinary := ordinary_calleeOf getters i caller m
      rw [calleeVia] at hcallee
      rw [callVia, executeSite_eq, EvalM.run_bind]
      generalize (calleeOf getters i caller).run.run m = result at hcallee hordinary ⊢
      rcases result with ⟨e | c, m₁⟩
      · intro hf
        cases hf
        exact hordinary _ rfl f rfl
      · cases hcallee

/-- **Where closures are in place, a call ends in a fault only if it is of one that has been moved.** -/
theorem callVia_answers (h : m.store.InPlace may) (hi : m.store.Allocated (.site i))
    (hassigned : Assigned (m.store.site i).args (m.store.site i).nodes owner) (getters : Getters σ)
    (caller : ActivationId) (callee : Option CallableId) :
    (∀ f, ((callVia getters i caller callee).run.run m).1 ≠ .error (.internal f))
      ∨ ∃ c l e t q, ((calleeVia getters i caller callee).run.run m).1 = .ok c
        ∧ (m.store.callable c).kind = .closure l e t
        ∧ (m.store.layout l).enclosing = some q ∧ q ≠ m.store.layoutOf e ∧ may l q
        ∧ ((callVia getters i caller callee).run.run m).1
          = .error (.internal (.enclosingMismatch (m.store.layout l).label
              (some (m.store.layout (m.store.layoutOf e)).label) (some (m.store.layout q).label))) := by
  cases hcallee : ((calleeVia getters i caller callee).run.run m).1 with
  | error err => exact Or.inl (callVia_of_error hcallee)
  | ok c =>
      obtain ⟨hnever, hcomes⟩ := comesTo_prepareVia hi hassigned hcallee
      obtain ⟨hreadied, -⟩ := prepares_prepareVia getters i caller callee m rfl
      rw [callVia_eq, thenEnter, EvalM.run_bind]
      generalize (prepareVia getters i caller callee).run.run m = result at hnever hcomes hreadied ⊢
      rcases result with ⟨err | p, m₁⟩
      · exact Or.inl fun f hf => hnever f (congrArg Except.error (Except.error.inj hf))
      obtain rfl : p.callable = c := hcomes p rfl
      dsimp only at hreadied ⊢
      rw [EvalM.run_onCall]
      unfold Prepared.enter
      cases hkind : (m.store.callable p.callable).kind with
      | intrinsic body =>
          refine Or.inl fun f hf => ?_
          rw [Store.invoke_intrinsic_run ((hreadied.kind p.callable).trans hkind)] at hf
          cases hf
      | closure l e t =>
          have hkind₁ := (hreadied.kind p.callable).trans hkind
          rcases Store.invoke_answers (h.readied hreadied) hkind₁ p.maxDepth caller p.target p.args p.demand with
            hanswers | ⟨q, hq, hne, hmay, hfault⟩
          · exact Or.inl hanswers
          · -- Layouts are called and nested as before the preparation.
            have hlabel : ∀ k, (m₁.store.layout k).label = (m.store.layout k).label := fun k => by
              rw [(hreadied.layout k).2]
            have hlayoutOf := congrFun (Store.layoutOf_congr hreadied.activations) e
            rw [hlabel, hlabel, hlabel, hlayoutOf] at hfault
            rw [(hreadied.layout l).2] at hq
            exact Or.inr ⟨_, l, e, t, q, rfl, hkind, hq, hlayoutOf ▸ hne, hmay, hfault⟩

end Chain

namespace Store

variable {s s₁ : Store} {may : LayoutId → LayoutId → Prop}

/-! ## Steps -/

/-- What the rest of a program may do: scopes are left alone, as call sites are but for their callees and limits.
    New call sites have not been called through. Closures are not made by other means than the making of
    closures. -/
structure Beyond (s s' : Store) : Prop extends s.Outside s' where
  closures : ∀ l e, s'.ClosesOver l e → s.ClosesOver l e
  sites : ∀ i, s'.Allocated (.site i) → s'.Unused i
    ∨ s.Allocated (.site i) ∧ (s'.site i).args = (s.site i).args ∧ (s'.site i).nodes = (s.site i).nodes

/-- A step of a program in which operations link layouts as `may` allows: an operation on scopes, be it in the
    body of a callee or outside, the making of a closure, a call up to the body of the callee, or something
    else. -/
inductive ClosureStep (may : LayoutId → LayoutId → Prop) (s : Store) : Store → Prop where
  | operate (op : Operation) (h : ∀ link ∈ op.links s, may link.1 link.2) : ClosureStep may s (op.perform s)
  | close (spec : CallableSpec) {enclosing : ActivationId} (h : s.Allocated (.activation enclosing))
      (body : BodyId) : ClosureStep may s ((newClosure spec enclosing body).run.run s).2
  | call {σ : Type} (getters : Getters σ) (host : σ) (i : SiteId) (caller : ActivationId)
      (callee : Option CallableId) :
      ClosureStep may s ((Chain.callVia getters i caller callee).run.run ⟨s, host⟩).2.store
  | beyond {s' : Store} (h : s.Beyond s') : ClosureStep may s s'

/-- Any number of steps. -/
abbrev ClosureRun (may : LayoutId → LayoutId → Prop) : Store → Store → Prop :=
  Relation.ReflTransGen (ClosureStep may)

theorem Beyond.inPlace (h : s.Beyond s₁) (hs : s.InPlace may) : s₁.InPlace may := by
  have hlayout : s₁.layout = s.layout := by
    unfold layout
    rw [h.layouts]
  refine hs.carry h.toOutside.marks (fun k hk => ?_) h.closures fun l e q _ hq => ?_
  · rw [Allocated, h.layouts, hlayout]
    exact ⟨hk, rfl⟩
  · rw [hlayout] at hq
    exact Or.inl hq

theorem Beyond.sited (h : s.Beyond s₁) (hs : s.Sited) : s₁.Sited := by
  intro i hi
  rcases h.sites i hi with hunused | ⟨hold, hargs, hnodes⟩
  · rw [hunused.nodes]
    exact ⟨_, Chain.assigned_new _⟩
  · rw [hargs, hnodes]
    exact hs i hold

/-- **Every step leaves closures in place**, and call sites in order. -/
theorem ClosureStep.inPlace (hstep : ClosureStep may s s₁) (h : s.InPlace may) (hs : s.Sited) :
    s₁.InPlace may ∧ s₁.Sited := by
  cases hstep with
  | operate op hop =>
      have hlinks := relinks_perform s op hop
      have hmarks : s.Marks (fun _ => True) (op.perform s) := marks_perform h.furnished op fun _ _ => trivial
      exact ⟨h.relinks hmarks hlinks fun _ _ _ _ => Or.inr, hs.of_eq hlinks.sites⟩
  | close spec he body =>
      refine ⟨h.newClosure spec he body, hs.of_eq ?_⟩
      rw [newClosure_run]
      exact (relinks_enclosed s spec _).1.sites
  | call getters host i caller callee =>
      exact ⟨Chain.inPlace_callVia (m := ⟨s, host⟩) h getters i caller callee,
        Chain.sited_callVia (m := ⟨s, host⟩) hs getters i caller callee⟩
  | beyond hb => exact ⟨hb.inPlace h, hb.sited hs⟩

theorem sited_new (names : List String) : (Store.new names).Sited := fun _ hi => absurd hi (Nat.not_lt_zero _)

theorem inPlace_new (names : List String) : (Store.new names).InPlace may := by
  have hnone : ∀ l e, ¬ (Store.new names).ClosesOver l e := by
    rintro l e ⟨c, t, hc⟩
    cases hc
  constructor
  case furnished => exact furnished_new names
  case placed => exact fun l e hl => absurd hl (hnone l e)
  case own => exact fun l e e' hl => absurd hl (hnone l e)

/-- What every step keeps, a run keeps. -/
theorem ClosureRun.inPlace (hrun : ClosureRun may s s₁) (h : s.InPlace may) (hs : s.Sited) :
    s₁.InPlace may ∧ s₁.Sited := by
  induction hrun with
  | refl => exact ⟨h, hs⟩
  | tail _ hstep ih => exact hstep.inPlace ih.1 ih.2

/-! ## Calling again -/

/-- **A closure can be called again, whatever scopes were moved meanwhile**, unless its own layout was. Scopes are
    made, written, moved, put around others and taken out in any order, in bodies of callees and outside; closures
    are made and called in between, through any call sites. A call ends in a fault only if it is of a closure whose
    layout an operation has linked to another one than that of the scope closed over. Then the fault says so; no
    call ends in any other fault. -/
theorem closures_answer {names : List String} (hrun : ClosureRun may (.new names) s) {σ : Type}
    (getters : Getters σ) (host : σ) {i : SiteId} (hi : s.Allocated (.site i)) (caller : ActivationId)
    (callee : Option CallableId) :
    (∀ f, ((Chain.callVia getters i caller callee).run.run ⟨s, host⟩).1 ≠ .error (.internal f))
      ∨ ∃ c l e t q, ((Chain.calleeVia getters i caller callee).run.run ⟨s, host⟩).1 = .ok c
        ∧ (s.callable c).kind = .closure l e t
        ∧ (s.layout l).enclosing = some q ∧ q ≠ s.layoutOf e ∧ may l q
        ∧ ((Chain.callVia getters i caller callee).run.run ⟨s, host⟩).1
          = .error (.internal (.enclosingMismatch (s.layout l).label (some (s.layout (s.layoutOf e)).label)
              (some (s.layout q).label))) := by
  obtain ⟨hplace, hsited⟩ := hrun.inPlace (inPlace_new names) (sited_new names)
  obtain ⟨owner, hassigned⟩ := hsited i hi
  exact Chain.callVia_answers (m := ⟨s, host⟩) hplace hi hassigned getters caller callee

/-- Operations that make no links are steps of every program. -/
theorem ClosureRun.of_allFit {ops : List Operation}
    (h : allFit (fun s op => (op.links s).isEmpty) s ops = true) :
    ClosureRun may s (ops.foldl Operation.perform s) := by
  refine steps_of_allFit (fun s op _ hfit => .operate op fun link hlink => ?_) h
  rw [List.isEmpty_iff.1 hfit] at hlink
  exact absurd hlink List.not_mem_nil

/-- Two modules, and a function that closes over the first. -/
def twoModules : Store :=
  ((newClosure { name := ⟨3⟩, label := some "f" } ⟨0⟩ ⟨0⟩).run.run
    ([Operation.newLayout "g" .singleton {}, .newScope ⟨0⟩ none 0, .newLayout "s" .singleton {},
      .newScope ⟨1⟩ none 0].foldl Operation.perform (.new ["g", "f"]))).2

/-- The function gets a site that calls it. -/
def oneCaller : Store := { twoModules with sites := #[{ callee := .value (.function ⟨0⟩), args := [] }] }

/-- The function has been called once. -/
def calledBefore : Store :=
  ((Chain.callVia Chain.zeroGetters ⟨0⟩ ⟨0⟩ none).run.run ⟨oneCaller, ()⟩).2.store

theorem beyond_oneCaller : twoModules.Beyond oneCaller := by
  refine ⟨⟨rfl, rfl, le_rfl, fun _ h => h⟩, fun _ _ h => h, fun i hi => Or.inl ⟨hi, ?_⟩⟩
  obtain ⟨k⟩ := i
  obtain rfl : k = 0 := Nat.lt_one_iff.1 hi
  rfl

theorem closureRun_calledBefore : ClosureRun may (.new ["g", "f"]) calledBefore := by
  have hmade : ClosureRun may (.new ["g", "f"]) twoModules :=
    (ClosureRun.of_allFit (by decide +kernel)).tail (.close _ (by decide +kernel) ⟨0⟩)
  exact (hmade.tail (.beyond beyond_oneCaller)).tail (.call Chain.zeroGetters () ⟨0⟩ ⟨0⟩ none)

/-- The module that the function closes over is moved into the other one, and the function is called again. -/
theorem answers_after_move :
    let s := (Operation.setEnclosing ⟨0⟩ (some ⟨1⟩)).perform calledBefore
    (s.layout ⟨0⟩).enclosing = some ⟨1⟩ ∧ s.Allocated (.site ⟨0⟩)
      ∧ ∀ f, ((Chain.callVia Chain.zeroGetters ⟨0⟩ ⟨0⟩ none).run.run ⟨s, ()⟩).1 ≠ .error (.internal f) := by
  intro s
  have hrun : ClosureRun (fun l _ => l = ⟨0⟩) (.new ["g", "f"]) s :=
    closureRun_calledBefore.tail (.operate _ (by decide +kernel))
  have hi : s.Allocated (.site ⟨0⟩) := by decide +kernel
  refine ⟨by decide +kernel, hi, (closures_answer hrun Chain.zeroGetters () hi ⟨0⟩ none).resolve_right ?_⟩
  rintro ⟨c, l, e, t, q, hcallee, hkind, -, -, rfl, -⟩
  have hfunction : ((Chain.calleeVia Chain.zeroGetters ⟨0⟩ ⟨0⟩ none).run.run ⟨s, ()⟩).1 = .ok ⟨0⟩ := by
    decide +kernel
  obtain rfl := Except.ok.inj (hcallee.symm.trans hfunction)
  have hlayout : (s.callable ⟨0⟩).kind = .closure ⟨2⟩ ⟨0⟩ ⟨0⟩ := by decide +kernel
  cases hkind.symm.trans hlayout

/-- **A closure cannot be called again**: the other module is put around the callee's own scope, which moves the
    layout that all scopes of the function share. -/
theorem moved_closure_faults : ¬ ∀ (names : List String) (s : Store), ClosureRun (fun _ _ => True) (.new names) s →
    s.Acyclic → ∀ i, s.Allocated (.site i) → ∀ caller f,
    ((Chain.callVia Chain.zeroGetters i caller none).run.run ⟨s, ()⟩).1 ≠ .error (.internal f) := by
  intro hclaim
  let s := (Operation.attach ⟨2⟩ ⟨1⟩).perform calledBefore
  have hrun : ClosureRun (fun _ _ => True) (.new ["g", "f"]) s :=
    closureRun_calledBefore.tail (.operate _ fun _ _ => trivial)
  have hfault : ((Chain.callVia Chain.zeroGetters ⟨0⟩ ⟨0⟩ none).run.run ⟨s, ()⟩).1
      = .error (.internal (.enclosingMismatch "f" (some "g") (some "s"))) := by decide +kernel
  exact hclaim _ s hrun (OuterFirst.acyclic (by decide +kernel)) ⟨0⟩ (by decide +kernel) ⟨0⟩ _ hfault

end Store

end ScopeCall
