import ScopeCall.Proofs.Delivering
import ScopeCall.Proofs.Nesting

/-!
# `ScopeCall.Proofs.Wrapping` — calls of functions that collect all their arguments

A wrapper has one formal, which collects. Whatever its arguments are named, they match, so a call of it comes
to its body as long as the call is not too deep; there the arguments are in one group, in the order of the
call. What else the call leaves behind is no matter to the calls that follow.

## Contents
- **On the way.** `Store.Proceeds`: what calls leave of a store.
- **Entering.** `Store.Admits`, which `Store.newClosure_admits` establishes, and `Store.invoke_closure_admitted`:
  a call that cannot but succeed.
- **Collecting.** `Store.Collected`, and `Chain.execute_collects`.
-/

namespace ScopeCall

namespace Store

variable {s s' s'' : Store} {l : LayoutId} {caller enclosing : ActivationId} {c : CallableId}

/-! ## On the way -/

/-- A site and the functions are left alone by what the calls through another site keep to themselves. -/
theorem Alike.meanwhile {i k : SiteId} (h : s.Alike i s') (hk : k ≠ i) : s.Meanwhile k s' where
  sites := h.sites.ge
  site := h.others k hk
  callables := h.callables.ge
  callable c _ := h.callable c
  targets := h.targets
  body t ht := congrArg CallTarget.body (h.target t ht)
  bodies hbodies c t ht := by
    rw [h.callable c] at ht
    exact Nat.lt_of_lt_of_le (hbodies c t ht) h.targets

/-- What evaluation and calls that come to a body leave of a store: call sites but for their nodes, functions
    but for their copies, how layouts are nested, the scopes that there were, names and groups. -/
structure Proceeds (s s' : Store) : Prop where
  site : ∀ k, s'.site k = { s.site k with nodes := (s'.site k).nodes }
  serves : ∀ k, s.Serves k → s'.Serves k
  callables : s.callables.size ≤ s'.callables.size
  callable : ∀ c, s.Allocated (.callable c) →
    s'.callable c = { s.callable c with copies := (s'.callable c).copies }
  layouts : s'.layouts.size = s.layouts.size
  kind : ∀ k, (s'.layout k).kind = (s.layout k).kind
  enclosing : ∀ k, (s'.layout k).enclosing = (s.layout k).enclosing
  activations : s.activations.size ≤ s'.activations.size
  activation : ∀ a, s.Allocated (.activation a) → s'.activation a = s.activation a
  interner : s'.interner = s.interner
  groups : s.heap.Extends s'.heap

namespace Proceeds

theorem refl (s : Store) : s.Proceeds s :=
  ⟨fun _ => rfl, fun _ => id, le_rfl, fun _ _ => rfl, rfl, fun _ => rfl, fun _ => rfl, le_rfl, fun _ _ => rfl,
    rfl, .refl s.heap⟩

theorem trans (h : s.Proceeds s') (h' : s'.Proceeds s'') : s.Proceeds s'' where
  site k := by
    rw [h'.site, h.site]
  serves k := h'.serves k ∘ h.serves k
  callables := h.callables.trans h'.callables
  callable c hc := by
    rw [h'.callable c (Nat.lt_of_lt_of_le hc h.callables), h.callable c hc]
  layouts := h'.layouts.trans h.layouts
  kind k := (h'.kind k).trans (h.kind k)
  enclosing k := (h'.enclosing k).trans (h.enclosing k)
  activations := h.activations.trans h'.activations
  activation a ha := (h'.activation a (Nat.lt_of_lt_of_le ha h.activations)).trans (h.activation a ha)
  interner := h'.interner.trans h.interner
  groups := h.groups.trans h'.groups

/-- Evaluation proceeds. -/
theorem of_looks (h : s.Looks s') (hgroups : s.heap.Extends s'.heap) : s.Proceeds s' := by
  have hsites : s'.sites = s.sites := by rw [h.rest]
  have hcallables : s'.callables = s.callables := by rw [h.rest]
  have htargets : s'.targets = s.targets := by rw [h.rest]
  have hactivations : s'.activations = s.activations := by rw [h.rest]
  exact {
    site k := by
      unfold Store.site
      rw [hsites]
    serves k hserves := by
      obtain ⟨owner, hserved⟩ := hserves
      exact ⟨owner, hserved.meanwhile (.of_eq hsites hcallables htargets)⟩
    callables := hcallables ▸ le_rfl
    callable c _ := by
      unfold Store.callable
      rw [hcallables]
    layouts := h.size
    kind k := by rw [h.layout]
    enclosing k := by rw [h.layout]
    activations := hactivations ▸ le_rfl
    activation a _ := by
      unfold Store.activation
      rw [hactivations]
    interner := by rw [h.rest]
    groups := hgroups }

/-- Matching gives what it gave. -/
theorem matchStandard (h : s.Proceeds s') (hc : s.Allocated (.callable c)) (names : SuppliedNames)
    (allowReorder : Bool) : s'.matchStandard c names allowReorder = s.matchStandard c names allowReorder := by
  have hspell : s'.spell = s.spell := by
    unfold spell
    rw [h.interner]
  unfold Store.matchStandard
  rw [h.callable c hc, hspell]

/-- What calls keep to themselves may change. -/
theorem of_alike {i : SiteId} (h : s.Alike i s') (hserves : s'.Serves i) : s.Proceeds s' where
  site k := by
    by_cases hk : k = i
    · rw [hk]
      exact h.here
    · rw [h.others k hk]
  serves k hk := by
    by_cases hki : k = i
    · rw [hki]
      exact hserves
    · obtain ⟨owner, hserved⟩ := hk
      exact ⟨owner, hserved.meanwhile (h.meanwhile hki)⟩
  callables := h.callables.ge
  callable c _ := h.callable c
  layouts := h.part (·.layouts.size) fun _ _ => rfl
  kind k := by rw [h.layout]
  enclosing k := by rw [h.layout]
  activations := (h.part (·.activations.size) fun _ _ => rfl).ge
  activation a _ := h.part (Store.activation · a) fun _ _ => rfl
  interner := h.part Store.interner fun _ _ => rfl
  groups := by
    rw [h.part Store.heap fun _ _ => rfl]
    exact .refl s.heap

theorem layoutOf (h : s.Proceeds s') {a : ActivationId} (ha : s.Allocated (.activation a)) :
    s'.layoutOf a = s.layoutOf a := by
  unfold Store.layoutOf
  rw [h.activation a ha]

end Proceeds

/-! ## Entering -/

/-- A layout that a call can always enter: it may have many activations, and is linked to the layout of the
    scope that it is entered from. -/
structure Admits (s : Store) (l : LayoutId) (enclosing : ActivationId) : Prop where
  layout : s.Allocated (.layout l)
  scope : s.Allocated (.activation enclosing)
  kind : (s.layout l).kind.isSingleton = false
  nested : s.isEnclosedBy l (some (s.layoutOf enclosing)) = true

theorem Admits.proceeds (h : s.Admits l enclosing) (hs : s.Proceeds s') : s'.Admits l enclosing where
  layout := Nat.lt_of_lt_of_eq h.layout hs.layouts.symm
  scope := Nat.lt_of_lt_of_le h.scope hs.activations
  kind := by
    rw [hs.kind, h.kind]
  nested := by
    have hnested := h.nested
    unfold isEnclosedBy at hnested ⊢
    rw [hs.enclosing, hs.layoutOf h.scope, hnested]

/-- Slots are added for all formals. -/
theorem addSlots_run (l : LayoutId) (fs : List Formal) (s : Store) :
    ∃ s', (fs.forM fun f => discard (findOrAddSlot l f.name) : FaultM Unit).run.run s = (.ok (), s')
      ∧ s.Enlarges s' ∧ s'.activations = s.activations := by
  induction fs generalizing s with
  | nil => exact ⟨s, rfl, .refl s, rfl⟩
  | cons f fs ih =>
      obtain ⟨henlarges, hactivations, -⟩ := findOrAddSlot_spec s l f.name
      obtain ⟨s', hrun, henlarges', hactivations'⟩ := ih ((findOrAddSlot l f.name).run s).2
      exact ⟨s', hrun, henlarges.trans henlarges', hactivations'.trans hactivations⟩

/-- A new layout is linked to nothing. -/
theorem newLayout_spec (label : String) (kind : LayoutKind) (policy : BindingPolicy) (s : Store) :
    ∃ l s', (newLayout label kind policy).run s = (l, s') ∧ s'.Allocated (.layout l)
      ∧ (s'.layout l).kind = kind ∧ (s'.layout l).enclosing = none ∧ s'.activations = s.activations := by
  have hlayout : ∀ (s : Store) (x : Layout), (s.addLayout x).layout ⟨s.layouts.size⟩ = x :=
    fun s x => (layout_addLayout s x _).trans (if_pos rfl)
  refine ⟨_, _, newLayout_run s label kind policy, ?_, ?_, ?_, rfl⟩
  · exact Nat.lt_of_lt_of_eq (Nat.lt_succ_self _) (Array.size_push _).symm
  · exact congrArg Layout.kind (hlayout _ _)
  · exact congrArg Layout.enclosing (hlayout _ _)

/-- **The layout of a closure admits calls from when it is made.** -/
theorem newClosure_admits (spec : CallableSpec) (henclosing : s.Allocated (.activation enclosing))
    (body : BodyId) : ∃ c s' l shared, (newClosure spec enclosing body).run.run s = (.ok c, s')
      ∧ s'.Allocated (.callable c) ∧ s'.callable c = spec.build (.closure l enclosing shared)
      ∧ s'.Admits l enclosing := by
  obtain ⟨l, s₁, hnew, hl, hkind, hfree, hactivations₁⟩ :=
    newLayout_spec (spec.label.getD CallableSpec.anonymous) .function {} s
  have hparent : s₁.parent l = none := by
    unfold parent
    rw [hfree]
    rfl
  have hlink : (initializeEnclosing l (some (s₁.layoutOf enclosing))).run.run s₁
      = (.ok (), s₁.linked l (s₁.layoutOf enclosing)) := by
    rw [initializeEnclosing_run, hparent]
    rfl
  have hrewires := rewires_linked s₁ l (s₁.layoutOf enclosing)
  have hlinked := (enclosing_linked (p := s₁.layoutOf enclosing) hl l).trans (if_pos rfl)
  have hactivations₂ : (s₁.linked l (s₁.layoutOf enclosing)).activations = s₁.activations := rfl
  generalize s₁.linked l (s₁.layoutOf enclosing) = s₂ at hlink hrewires hlinked hactivations₂
  -- Slots for the formals change neither links nor activations.
  obtain ⟨s₃, hslots, henlarges, hactivations₃⟩ := addSlots_run l spec.formals s₂
  have hactivations : s₃.activations = s.activations :=
    hactivations₃.trans (hactivations₂.trans hactivations₁)
  have hlayoutOf : s₃.layoutOf enclosing = s₁.layoutOf enclosing := by
    unfold layoutOf activation
    rw [hactivations₃, hactivations₂]
  have hfinish : (newClosure spec enclosing body).run.run s
      = (.ok ⟨s₃.callables.size⟩, { s₃ with
          targets := s₃.targets.push { body, dedicated := false }
          callables := s₃.callables.push (spec.build (.closure l enclosing ⟨s₃.targets.size⟩)) }) := by
    unfold newClosure
    rw [run_lift_bind, hnew, run_get_bind, run_bind, hlink]
    dsimp only
    rw [run_bind, hslots]
    rfl
  have hadmits : s₃.Admits l enclosing := {
    layout := henlarges.allocated ((hrewires.allocated_layout l).2 hl)
    scope := Nat.lt_of_lt_of_eq henclosing (congrArg Array.size hactivations.symm)
    kind := by
      rw [henlarges.kind, hrewires.layout]
      exact congrArg LayoutKind.isSingleton hkind
    nested := by
      unfold isEnclosedBy
      rw [henlarges.enclosing, hlinked, hlayoutOf]
      exact decide_eq_true rfl }
  refine ⟨⟨s₃.callables.size⟩, _, l, ⟨s₃.targets.size⟩, hfinish, ?_, ?_, ?_⟩
  · exact Nat.lt_of_lt_of_eq (Nat.lt_succ_self _) (Array.size_push _).symm
  · exact (Array.getD_push s₃.callables _ _).trans (if_pos rfl)
  · exact ⟨hadmits.layout, hadmits.scope, hadmits.kind, hadmits.nested⟩

/-- **A call of a closure whose layout admits it comes to the body**, unless it is too deep. -/
theorem invoke_closure_admitted {shared : TargetId}
    (hkind : (s.callable c).kind = .closure l enclosing shared) (hadmits : s.Admits l enclosing)
    {maxDepth : Nat} (hdepth : s.calleeDepth caller ≤ maxDepth) (target : Option TargetId)
    (args : List (Option Value)) (demand : CallerDemand) :
    ∃ inv s', (invoke maxDepth caller c target args demand).run.run s
        = (.ok (.closure (target.getD shared) inv), s')
      ∧ s'.Allocated (.activation inv.activation) ∧ s.Proceeds s' := by
  have henter : (newScope l (some enclosing) (s.calleeDepth caller)).run.run (s.hold (callRefs c args))
      = (.ok ⟨s.activations.size⟩,
        (s.hold (callRefs c args)).joined l (some enclosing) (s.calleeDepth caller)) := by
    have hnested : (s.hold (callRefs c args)).isEnclosedBy l
        ((some enclosing).map (s.hold (callRefs c args)).layoutOf) = true := hadmits.nested
    have hmany : ((s.hold (callRefs c args)).layout l).kind.isSingleton = false := hadmits.kind
    rw [newScope_run, if_pos hnested, enter_run, hmany, if_neg Bool.false_ne_true]
    rfl
  have hmeanwhile := fun k => meanwhile_invoke k maxDepth caller c target args demand s
  have hcall := invoke_closure_run hkind maxDepth caller target args demand
  rw [if_neg (Nat.not_lt_of_le hdepth), henter] at hcall
  dsimp only at hcall
  generalize hjoined : ((s.hold (callRefs c args)).joined l (some enclosing) (s.calleeDepth caller)).hold
    [.activation ⟨s.activations.size⟩] = s₁ at hcall
  have hpush : s₁.activations = s.activations.push (s.entrant l (some enclosing) (s.calleeDepth caller)) := by
    rw [← hjoined]
    rfl
  have hlayouts : s₁.layouts = s.layouts := by
    rw [← hjoined]
    rfl
  have hlayout : s₁.layout = s.layout := by
    unfold Store.layout
    rw [hlayouts]
  rcases bindArguments_of_push hpush (fun _ => rfl) ((s.callable c).formals.zip args) with
    ⟨s₂, hrun, hbinds⟩ | ⟨hnone, -⟩
  · rw [hrun] at hcall
    dsimp only at hcall
    obtain ⟨-, inv, hentry, -, -, henters, hheap⟩ := invoke_closure_ok hkind hcall
    cases hentry
    rw [hcall] at hmeanwhile
    refine ⟨_, _, hcall, Nat.lt_of_lt_of_eq (allocated_of_push hpush) hbinds.size.symm, ?_⟩
    exact {
      site k := by rw [(hmeanwhile k).site]
      serves k hserves := by
        obtain ⟨owner, hserved⟩ := hserves
        exact ⟨owner, hserved.meanwhile (hmeanwhile k)⟩
      callables := (hmeanwhile default).callables
      callable := (hmeanwhile default).callable
      layouts := hbinds.enlarges.size.trans (congrArg Array.size hlayouts)
      kind k := (hbinds.enlarges.kind k).trans (congrArg (fun f => (f k).kind) hlayout)
      enclosing k := (hbinds.enlarges.enclosing k).trans (congrArg (fun f => (f k).enclosing) hlayout)
      activations := by
        refine Nat.le_of_succ_le (Nat.le_of_eq ?_)
        exact (Array.size_push _).symm.trans ((congrArg Array.size hpush).symm.trans hbinds.size.symm)
      activation := henters.others
      interner := henters.interner
      groups := hheap ▸ .refl s.heap }
  · -- The layout exists, so there is nowhere for binding to fail.
    exact absurd (Nat.lt_of_lt_of_eq hadmits.layout (congrArg Array.size hlayouts.symm)) hnone

end Store

/-! ## Collecting -/

namespace Matching

variable {f : Formal} {names : SuppliedNames}

theorem unplaced_of_collecting (hf : f.isVariadic = true) :
    unplaced [f] names = List.range names.length := by
  refine List.filter_eq_self.2 fun i _ => decide_eq_true ?_
  rintro (_ | k) hk hplaced
  · exact Bool.false_ne_true ((hplaced.not_variadic rfl).symm.trans hf)
  · simp at hk

/-- **A formal that collects, and is the only one, gets all arguments**, whatever they are named. -/
theorem run_of_collecting (spell : Name → String) (callee : String) (hf : f.isVariadic = true)
    (hempty : some Name.empty ∉ names) (allowReorder : Bool) : ∃ matched,
      run spell callee [f] names allowReorder = .ok matched ∧ Follows [f] names matched
      ∧ matched.sources = [.collected (List.range names.length)] := by
  have hfirst : [f].findIdx? Formal.isVariadic = some 0 := by
    rw [List.findIdx?_cons, hf]
    rfl
  have hrepeats : ∀ j n, ¬ Repeats [f] names j n := by
    rintro j n ⟨⟨k, hcarries⟩, -⟩
    unfold Carries at hcarries
    rcases k with _ | k
    · simp [hf] at hcarries
    · simp at hcarries
  obtain ⟨matched, hrun, -, hfollows⟩ := run_collecting hempty hrepeats hfirst
  refine ⟨matched, hrun, hfollows, ?_⟩
  have hhead := hfollows.collects 0 hfirst
  rw [unplaced_of_collecting hf] at hhead
  obtain ⟨source, hsources⟩ := List.length_eq_one_iff.1 hfollows.length
  rw [hsources] at hhead ⊢
  exact congrArg (fun source => [source]) (Option.some.inj hhead)

end Matching

/-- A group that holds all arguments has their names and their values. -/
theorem Heap.Holds.entries {h : Heap} {g : GroupId} {names : SuppliedNames} {values : List Value}
    (hholds : h.Holds g names values (List.range names.length)) (hlength : values.length = names.length) :
    (h.entries g).map (·.name) = names ∧ (h.entries g).map (·.value) = values := by
  obtain ⟨hsize, hget⟩ := List.forall₂_iff_get.1 hholds.2
  rw [List.length_range] at hsize
  have hentry : ∀ k (hk : k < (h.entries g).length), names[k]? = some (h.entries g)[k].name
      ∧ values[k]? = some (h.entries g)[k].value := by
    intro k hk
    have hfit := hget k (by rw [List.length_range, hsize]; exact hk) hk
    simpa using hfit
  constructor
  · refine List.ext_getElem? fun k => ?_
    by_cases hk : k < (h.entries g).length
    · rw [List.getElem?_map, List.getElem?_eq_getElem hk, (hentry k hk).1]
      rfl
    · rw [List.getElem?_eq_none (by simpa using hk), List.getElem?_eq_none (by omega)]
  · refine List.ext_getElem? fun k => ?_
    by_cases hk : k < (h.entries g).length
    · rw [List.getElem?_map, List.getElem?_eq_getElem hk, (hentry k hk).2]
      rfl
    · rw [List.getElem?_eq_none (by simpa using hk), List.getElem?_eq_none (by omega)]

/-- What a scope has collected: its leftover arguments have these names and values, in order. -/
def Store.Collected (s : Store) (a : ActivationId) (names : SuppliedNames) (values : List Value) : Prop :=
  ∃ g, s.readName a .variadic = some (.group g) ∧ g.index < s.heap.groups.size
    ∧ (s.heap.entries g).map (·.name) = names ∧ (s.heap.entries g).map (·.value) = values

/-- Evaluation does not change what has been collected. -/
theorem Store.Collected.of_looks {s s' : Store} {a : ActivationId} {names : SuppliedNames}
    {values : List Value} (h : s.Collected a names values) (hs : s.Looks s')
    (hgroups : s.heap.Extends s'.heap) : s'.Collected a names values := by
  obtain ⟨g, hread, hlt, hnames, hvalues⟩ := h
  refine ⟨g, (hs.sameScopes.readName a _).trans hread, Nat.lt_of_lt_of_le hlt hgroups.size, ?_, ?_⟩
  · rw [hgroups.entries g hlt, hnames]
  · rw [hgroups.entries g hlt, hvalues]

namespace Chain

variable {σ : Type} {getters : Getters σ} {i j : SiteId} {caller a : ActivationId} {c : CallableId}
  {m m₁ : Machine σ} {names : SuppliedNames} {values : List Value}

/-- **What a scope has collected is what a site that forwards supplies from there.** -/
theorem supplies_of_collected {spec : ArgSpec} (hargs : (m.store.site j).args = [spec])
    (hforward : spec.isForward = true) (h : m.store.Collected a names values) :
    Supplies getters j a m names values := by
  obtain ⟨g, hread, -, rfl, rfl⟩ := h
  have hexpr : spec.expr = .forward := by
    unfold ArgSpec.isForward at hforward
    split at hforward
    · assumption
    · cases hforward
  have hlookup : m.store.lookupDynamic a .variadic = some (.group g) := by
    unfold Store.lookupDynamic Store.chainBound Store.lookupFrom
    rw [hread]
  have hevaluate : ∃ m₁, (Arguments.evaluate getters a [spec] [m.store.heap.entries g]).run.run (holding m [g])
      = (.ok ((m.store.heap.entries g).map (·.value)), m₁) := by
    unfold Arguments.evaluate
    rw [hexpr]
    exact ⟨_, Prod.ext (congrArg Except.ok (List.append_nil _)) rfl⟩
  obtain ⟨m₁, hvalues⟩ := hevaluate
  refine ⟨[g], m₁, ?_, ?_, ?_⟩
  · unfold Arguments.readGroups Arguments.forwardsVariadic
    rw [hargs, hlookup, List.any_cons, hforward, if_pos (Bool.true_or _), List.filter_cons, if_pos hforward]
    rfl
  · rw [hargs]
    unfold Arguments.flattenedNames
    rw [if_pos hforward]
    exact (List.append_nil _).symm
  · rw [hargs]
    exact hvalues

/-- **A call of a function that collects all its arguments gathers one group of them.** -/
theorem gather_of_collecting (hkeep : EvalM.KeepGroups getters)
    (hstandard : (m.store.site i).matcher = .standard) {f : Formal}
    (hformals : (m.store.callable c).formals = [f]) (hf : f.isVariadic = true)
    (hempty : some Name.empty ∉ names) (hsupplies : Supplies getters i caller m names values) :
    ∃ g m₁, (gather getters i caller c).run.run m = (.ok [some (.group g)], m₁)
      ∧ m₁.store.heap.Holds g names values (List.range names.length)
      ∧ m.store.Looks m₁.store ∧ m.store.heap.Extends m₁.store.heap := by
  -- There is nothing that a collecting formal refuses.
  obtain ⟨matched, hmatch, hfollows, hsources⟩ := Matching.run_of_collecting m.store.spell
    (m.store.callable c).label hf hempty true
  have hmatched : m.store.matchStandard c names true = .ok matched := by
    unfold Store.matchStandard
    rw [hformals]
    exact hmatch
  have hsteady := (EvalM.steady_looks getters).and hkeep.steady
  have hgather := gather_of_supplies (c := c) hsteady hstandard hempty hsupplies
  rw [hmatched, hformals] at hgather
  obtain ⟨m₁, ⟨hlooks, hgroups⟩, hgather⟩ := hgather
  have hgives := MatchedArguments.bind_gives hfollows hsupplies.length m₁.store.heap
  have hextends := MatchedArguments.bind_extends matched [f] names values m₁.store.heap
  rw [hsources] at hgives
  generalize ((matched.bind [f] names values).run m₁.store.heap).1 = bound at hgives hgather
  obtain _ | ⟨⟨g, hholds, rfl⟩, hrest⟩ := hgives
  cases hrest
  exact ⟨g, bindingAt m₁ matched [f] names values, hgather, hholds, hlooks.trans ⟨rfl, rfl, fun _ => rfl⟩,
    hgroups.trans hextends⟩

/-- **A call of a function that collects all its arguments comes to the body**, and the body's scope has
    collected what the call supplies. -/
theorem execute_collects (hkeep : EvalM.KeepGroups getters) (hserves : m.store.Serves i)
    (hc : m.store.InHand c) {f : Formal} (hformals : (m.store.callable c).formals = [f])
    (hf : f.isVariadic = true) {l : LayoutId} {enclosing : ActivationId} {shared : TargetId}
    (hkind : (m.store.callable c).kind = .closure l enclosing shared) (hadmits : m.store.Admits l enclosing)
    (hdepth : m.store.calleeDepth caller ≤ (m.store.site i).maxDepth) (hempty : some Name.empty ∉ names)
    (hsupplies : Supplies getters i caller m names values) :
    ∃ target inv m', (execute getters i caller c).run.run m = (.ok (.closure target inv), m')
      ∧ m.store.Proceeds m'.store ∧ m'.store.Allocated (.activation inv.activation)
      ∧ (m'.store.activation inv.activation).depth = m.store.calleeDepth caller
      ∧ m'.store.Collected inv.activation names values := by
  obtain ⟨owner, hserved⟩ := hserves
  obtain ⟨g, m₁, hgather, hholds, hlooks, hgroups⟩ :=
    gather_of_collecting hkeep hserved.standard hformals hf hempty hsupplies
  have htransparent := transparent_of_served getters caller hc hserved
  unfold Transparent at htransparent
  rw [hgather] at htransparent
  obtain ⟨target, demand, m₂, halike, hserves₂, -, hresult⟩ := htransparent
  have hproceeds : m.store.Proceeds m₂.store :=
    (Store.Proceeds.of_looks hlooks hgroups).trans (.of_alike halike.store hserves₂)
  have hcallable := hproceeds.callable c hc.made
  have hkind₂ : (m₂.store.callable c).kind = .closure l enclosing shared := by
    rw [hcallable]
    exact hkind
  have hscopes := hlooks.sameScopes.trans halike.store.sameScopes
  have hdepth₂ : m₂.store.calleeDepth caller = m.store.calleeDepth caller := by
    unfold Store.calleeDepth Store.activation
    rw [hscopes.activations]
  -- What has been gathered is bound in a scope that the layout admits.
  obtain ⟨inv, s', hinvoke, hallocated, hentered⟩ := Store.invoke_closure_admitted hkind₂
    (hadmits.proceeds hproceeds) (hdepth₂.trans_le hdepth) target [some (.group g)] demand
  obtain ⟨-, inv', hinv, -, -, henters, hheap⟩ := Store.invoke_closure_ok hkind₂ hinvoke
  cases hinv
  rw [hcallable, hformals] at henters
  rw [EvalM.run_onCall, hinvoke] at hresult
  have hheap₁ : s'.heap = m₁.store.heap := hheap.trans (halike.store.part Store.heap fun _ _ => rfl)
  refine ⟨_, inv, ⟨s', m₂.host⟩, hresult, hproceeds.trans hentered, hallocated, ?_, g, ?_, ?_⟩
  · obtain ⟨contents, hscope⟩ := henters.scope
    rw [hscope]
    exact hdepth₂
  · have hname : f.name = .variadic := by simpa [Formal.isVariadic, Name.isVariadic] using hf
    rw [← hname]
    exact henters.readName (List.nodup_singleton _) List.mem_cons_self
  · show g.index < s'.heap.groups.size ∧ _
    rw [hheap₁]
    exact ⟨hholds.1, hholds.entries hsupplies.length⟩

end Chain

end ScopeCall
