import Mathlib.Logic.Relation
import ScopeCall.Proofs.Copying

/-!
# `ScopeCall.Proofs.Runs` — operations in any order

A run is a sequence of steps. A step is an operation on scopes, on objects that are held from outside; or
it is what the rest of the program does between two operations, which can take up any object alive, let
go of objects, and make and change values, functions and call sites.

## Contents
- **Operations.** `Operation`, what each is passed and what it does.
- **Holding what was made.** `Sound.acquire`.
- **Steps and runs.** `Step`, `Run`, and `Reachable`, from a store with no objects.
- **Tokens in step.** `stable_values_in_step`: in every reachable store.
-/

namespace ScopeCall

namespace Store

/-! ## Operations -/

/-- An operation on scopes, with what is passed to it. -/
inductive Operation where
  | newLayout (label : String) (kind : LayoutKind) (policy : BindingPolicy)
  | initializeEnclosing (l : LayoutId) (parent : Option LayoutId)
  | relink (l : LayoutId) (parent : Option LayoutId)
  | findOrAddSlot (l : LayoutId) (n : Name)
  | invalidateNames (l : LayoutId) (names : List Name)
  | invalidateAll (l : LayoutId)
  | newScope (l : LayoutId) (enclosing : Option ActivationId) (depth : Nat)
  | define (a : ActivationId) (n : Name) (v : Value)
  | assignNonLocal (a : ActivationId) (n : Name) (v : Value)
  | setActiveBinding (a : ActivationId) (n : Name) (g : GetterId)
  | write (a : ActivationId) (slot : Nat) (v : Value) (nonLocal : Bool)
  | remove (a : ActivationId) (n : Name)
  | markIrregular (a : ActivationId)
  | setEnclosing (a : ActivationId) (parent : Option ActivationId)
  | attach (a inserted : ActivationId)
  | detachEnclosing (a : ActivationId)
  | newCache (n : Name)
  | resolve (a : ActivationId) (n : Name)
  | cachedRead (c : CacheId) (a : ActivationId)
  | registerContexts (additional : Nat)
  | enterContext (context : Nat)
  | leaveContext (previous : Nat)
  | writeInContext (a : ActivationId) (slot : Nat) (v : Value)
  | fanOutSlot (a : ActivationId) (slot : Nat) (contexts : List Nat) (replicate : Bool)
  | fanOutAll (a : ActivationId) (contexts : List Nat) (replicate : Bool)
  | cleanFanOut (a : ActivationId) (contexts : Option (List Nat))

namespace Operation

/-- The objects passed to an operation. -/
def operands : Operation → List Ref
  | .initializeEnclosing l parent | .relink l parent =>
    .layout l :: parent.toList.map Ref.layout
  | .findOrAddSlot l _ | .invalidateNames l _ | .invalidateAll l => [.layout l]
  | .newScope l enclosing _ => .layout l :: enclosing.toList.map Ref.activation
  | .define a _ v | .assignNonLocal a _ v | .write a _ v _ | .writeInContext a _ v =>
    .activation a :: v.refs
  | .setActiveBinding a _ _ | .remove a _ | .markIrregular a | .detachEnclosing a | .resolve a _
  | .fanOutSlot a _ _ _ | .fanOutAll a _ _ | .cleanFanOut a _ => [.activation a]
  | .setEnclosing a parent => .activation a :: parent.toList.map Ref.activation
  | .attach a inserted => [.activation a, .activation inserted]
  | .cachedRead c a => [.cache c, .activation a]
  | .newLayout .. | .newCache _ | .registerContexts _ | .enterContext _ | .leaveContext _ => []

/-- The store after an operation. An object that the operation makes is held; one that it answers and
    that was there before can be taken up before the operation. -/
def perform (s : Store) : Operation → Store
  | .newLayout label kind policy =>
    let (l, s) := (Store.newLayout label kind policy).run s
    s.acquire [.layout l]
  | .initializeEnclosing l parent => ((Store.initializeEnclosing l parent).run.run s).2
  | .relink l parent => ((relinkTo l parent).run s).2
  | .findOrAddSlot l n => ((Store.findOrAddSlot l n).run s).2
  | .invalidateNames l names => s.invalidateNames l names
  | .invalidateAll l => s.invalidateAll l
  | .newScope l enclosing depth =>
    match (Store.newScope l enclosing depth).run.run s with
    | (.ok a, s)    => s.acquire [.activation a]
    | (.error _, s) => s
  | .define a n v => ((Store.define a n v).run.run s).2
  | .assignNonLocal a n v => ((Store.assignNonLocal a n v).run.run s).2
  | .setActiveBinding a n g => ((Store.setActiveBinding a n g).run.run s).2
  | .write a slot v nonLocal => ((Store.write a slot v nonLocal).run.run s).2
  | .remove a n => ((Store.remove a n).run s).2
  | .markIrregular a => s.markIrregular a
  | .setEnclosing a parent => ((Store.setEnclosing a parent).run.run s).2
  | .attach a inserted => ((Store.attach a inserted).run.run s).2
  | .detachEnclosing a => ((Store.detachEnclosing a).run.run s).2
  | .newCache n =>
    let (c, s) := (Store.newCache n).run s
    s.acquire [.cache c]
  | .resolve a n => ((Store.resolve a n).run s).2
  | .cachedRead c a => ((Store.cachedRead c a).run s).2
  | .registerContexts additional => ((Store.registerContexts additional).run s).2
  | .enterContext context => ((Store.enterContext context).run s).2
  | .leaveContext previous => s.leaveContext previous
  | .writeInContext a slot v => ((Store.writeInContext a slot v).run.run s).2
  | .fanOutSlot a slot contexts replicate =>
    ((Store.fanOutSlot a slot contexts replicate).run.run s).2
  | .fanOutAll a contexts replicate => ((Store.fanOutAll a contexts replicate).run.run s).2
  | .cleanFanOut a contexts => s.cleanFanOut a contexts

end Operation

/-- What the rest of the program may do between two operations. -/
structure Elsewhere (s s' : Store) : Prop where
  leads : s.Leads s'
  layouts : s'.layouts = s.layouts
  activations : s'.activations = s.activations
  stables : s'.stables = s.stables
  lookups : s'.lookups = s.lookups
  caches : s'.caches = s.caches
  contexts : s'.contexts = s.contexts

/-- Handles may be given up. -/
theorem elsewhere_release (s : Store) (rs : List Ref) : s.Elsewhere (s.release rs) := by
  have herase : ∀ {r : Ref} {rs held : List Ref}, r ∈ rs.foldl List.erase held → r ∈ held := by
    intro r rs
    induction rs with
    | nil => exact id
    | cons q rs ih => exact fun h => List.mem_of_mem_erase (ih h)
  refine ⟨⟨fun _ => id, fun r hr => Or.inl (live_of_mem_roots ?_), fun _ _ => Or.inl, fun _ _ => Or.inl⟩,
    rfl, rfl, rfl, rfl, rfl, rfl⟩
  simp only [roots, release, List.mem_append] at hr ⊢
  exact hr.imp_right herase

/-- Objects alive may be taken up. -/
theorem elsewhere_acquire {s : Store} {rs : List Ref} (h : ∀ r ∈ rs, s.Live r) : s.Elsewhere (s.acquire rs) := by
  refine ⟨⟨fun _ => id, fun r hr => Or.inl ?_, fun _ _ => Or.inl, fun _ _ => Or.inl⟩, rfl, rfl, rfl, rfl, rfl, rfl⟩
  simp only [roots, acquire, List.mem_append] at hr
  rcases hr with hr | hr | hr
  · exact live_of_mem_roots (List.mem_append_left _ hr)
  · exact h r hr
  · exact live_of_mem_roots (List.mem_append_right _ hr)

theorem Elsewhere.layout {s s' : Store} (h : s.Elsewhere s') (l : LayoutId) : s'.layout l = s.layout l := by
  rw [Store.layout, h.layouts, ← Store.layout]

/-- One operation, or something else in between. -/
inductive Step (s : Store) : Store → Prop where
  | operate (op : Operation) (h : ∀ r ∈ op.operands, r ∈ s.roots) : Step s (op.perform s)
  | elsewhere {s' : Store} (h : s.Elsewhere s') : Step s s'

/-- Any number of steps. -/
abbrev Run : Store → Store → Prop := Relation.ReflTransGen Step

/-- A store that a program can come to. -/
def Reachable (s : Store) : Prop := ∃ names, Run (.new names) s

variable {s s₁ s₂ : Store}

/-- What is passed to an operation, where one operand may be left out, is held. -/
theorem held_optional {α : Type} {f : α → Ref} {r : Ref} {operand : Option α}
    (h : ∀ q ∈ r :: operand.toList.map f, q ∈ s.roots) :
    r ∈ s.roots ∧ ∀ x, operand = some x → f x ∈ s.roots := by
  simp only [List.forall_mem_cons, List.forall_mem_map] at h
  exact ⟨h.1, fun x hx => h.2 x (Option.mem_toList.2 hx)⟩

/-! ## Holding what was made -/

/-- Holding an object that refers to objects alive makes no other object alive. -/
theorem live_of_live_acquire {r q : Ref} (hrefs : ∀ p ∈ s.refs r, s.Live p)
    (hq : (s.acquire [r]).Live q) : q = r ∨ s.Live q := by
  refine or_iff_not_imp_left.2 fun hne =>
    ⟨fun q => s.Live q ∨ (s.acquire [r]).Live q ∧ q ≠ r, ?_, Or.inr ⟨hq, hne⟩⟩
  have hlive : ∀ q, s.Live q → q ∈ s.roots
      ∨ ∃ p, (s.Live p ∨ (s.acquire [r]).Live p ∧ p ≠ r) ∧ q ∈ s.refs p := fun q hq =>
    (supported_live s q hq).imp_right fun ⟨p, hp, hin⟩ => ⟨p, Or.inl hp, hin⟩
  rintro q (hq | ⟨hq, hne⟩)
  · exact hlive q hq
  · rcases supported_live _ q hq with hroot | ⟨p, hp, hin⟩
    · refine Or.inl ?_
      simp only [roots, acquire, List.mem_append, List.cons_append, List.nil_append,
        List.mem_cons] at hroot ⊢
      exact hroot.imp_right fun h => h.resolve_left hne
    · by_cases hpr : p = r
      · exact hlive q (hrefs q (hpr ▸ hin))
      · exact Or.inr ⟨p, Or.inr ⟨hp, hpr⟩, hin⟩

/-- An object that has just been made may be held. -/
theorem Sound.acquire (hs : s.Sound) {r : Ref} (ha : s.Allocated r)
    (hrefs : ∀ p ∈ s.refs r, s.Live p) (hready : ∀ a, r = .activation a → s.Ready a) :
    (s.acquire [r]).Sound where
  wellFormed := by
    refine ⟨fun q hq => ?_, hs.wellFormed.refs, hs.wellFormed.weak⟩
    simp only [roots, Store.acquire, List.mem_append, List.cons_append, List.nil_append,
      List.mem_cons] at hq
    rcases hq with hq | rfl | hq
    · exact hs.wellFormed.roots q (List.mem_append_left _ hq)
    · exact ha
    · exact hs.wellFormed.roots q (List.mem_append_right _ hq)
  bindings := by
    have hb := hs.bindings
    have hlive : ∀ a, (s.acquire [r]).Live (.activation a) → s.Ready a ∨ s.Live (.activation a) :=
      fun a ha => (live_of_live_acquire hrefs ha).imp_left fun h => hready a h.symm
    refine ⟨hb.kind, hb.valid, hb.unshared, hb.owned, hb.unclaimed, hb.fits, ?_, ?_⟩
    · intro a ha hk
      rcases hlive a ha with h | h
      · exact h.unique hk
      · exact hb.unique a h hk
    · intro a i t ha ht hnot
      rcases hlive a ha with h | h
      · exact h.agree i t ht
      · exact hb.agree a i t h ht hnot

/-! ## Steps and runs -/

/-- What a step makes of a sound store. -/
structure Progress (s s' : Store) : Prop where
  sound : s'.Sound
  grows : ∀ r, s.Allocated r → s'.Allocated r
  /-- A layout that was not alive any more is not alive again. -/
  back : ∀ l, s'.Live (.layout l) → s.Allocated (.layout l) → s.Live (.layout l)
  later : s.Later s'

theorem Progress.refl (hs : s.Sound) : s.Progress s := ⟨hs, fun _ h => h, fun _ h _ => h, .refl s⟩

theorem Progress.trans (hs : s.Sound) (h : s.Progress s₁) (h' : s₁.Progress s₂) : s.Progress s₂ :=
  ⟨h'.sound, fun r hr => h'.grows r (h.grows r hr),
    fun l hl ha => h.back l (h'.back l hl (h.grows _ ha)) ha,
    h.later.trans hs.wellFormed (fun t => h.grows (.stable t)) h'.later⟩

theorem Advances.progress (h : s.Advances s₁) (hs : s.Sound) : s.Progress s₁ :=
  ⟨h.sound hs, h.leads.grows, fun _ => h.leads.live, h.later⟩

/-- An operation that makes an object, and holds it. -/
theorem Advances.progress_acquire (h : s.Advances s₁) (hs : s.Sound) {r : Ref}
    (ha : s₁.Allocated r) (hrefs : ∀ p ∈ s₁.refs r, s₁.Live p)
    (hready : ∀ a, r = .activation a → s₁.Ready a)
    (hnew : ∀ l, r = .layout l → ¬ s.Allocated (.layout l)) : s.Progress (s₁.acquire [r]) where
  sound := (h.sound hs).acquire ha hrefs hready
  grows := h.leads.grows
  back l hl hold := by
    rcases live_of_live_acquire hrefs hl with heq | hl
    · exact absurd hold (hnew l heq.symm)
    · exact h.leads.live hl hold
  later := ⟨h.later.slots, h.later.dropped, h.later.fallen, h.later.kept⟩

theorem progress_newLayout (hs : s.Sound) (label : String) (kind : LayoutKind)
    (policy : BindingPolicy) : s.Progress ((Operation.newLayout label kind policy).perform s) := by
  have hguards := ((Spares.refl s).aside (aside_addGuard s (label ++ " has no active bindings"))).aside
    (aside_addGuard _ (label ++ " enclosing"))
  have hspares := hguards.addLayout (l := {
      label, kind, policy, noActiveBinding := ⟨s.guards.size⟩
      enclosingGuard := ⟨(s.addGuard (label ++ " has no active bindings")).guards.size⟩ })
    rfl rfl rfl rfl rfl
  refine (hspares.advances hs).progress_acquire hs (Nat.lt_of_lt_of_eq (Nat.lt_succ_self _)
    (Array.size_push _).symm) (fun p hp => ?_) (by rintro a ⟨⟩)
    (by rintro l ⟨rfl⟩; exact Nat.lt_irrefl _)
  simp [refs, addLayout, addGuard, Layout.refs] at hp

theorem progress_newCache (hs : s.Sound) (n : Name) :
    s.Progress ((Operation.newCache n).perform s) := by
  refine (((Spares.refl s).addCache n).advances hs).progress_acquire hs (Nat.lt_of_lt_of_eq
    (Nat.lt_succ_self _) (Array.size_push _).symm) (fun p hp => ?_) (by rintro a ⟨⟩)
    (by rintro l ⟨⟩)
  simp [refs, addCache, LookupCache.refs] at hp

theorem progress_newScope (hs : s.Sound) {l : LayoutId} {enclosing : Option ActivationId}
    {depth : Nat} (h : ∀ r ∈ (Operation.newScope l enclosing depth).operands, r ∈ s.roots) :
    s.Progress ((Operation.newScope l enclosing depth).perform s) := by
  obtain ⟨hl, he⟩ := held_optional h
  obtain ⟨hadv, hready⟩ := advances_newScope hs hl he depth
  rw [Operation.perform]
  generalize (Store.newScope l enclosing depth).run.run s = result at hadv hready ⊢
  rcases result with ⟨e | a, s₁⟩
  · exact hadv.progress hs
  · have ha := hready a rfl
    exact hadv.progress_acquire hs ha.allocated ha.refs (by rintro b ⟨rfl⟩; exact ha)
      (by rintro l ⟨⟩)

/-- **Every operation keeps a sound store sound.** -/
theorem progress_perform (hs : s.Sound) {op : Operation} (h : ∀ r ∈ op.operands, r ∈ s.roots) :
    s.Progress (op.perform s) := by
  have hwf := hs.wellFormed
  have haside : ∀ {s'}, s.Aside s' → s.Progress s' := fun h => (h.advances hs).progress hs
  cases op with
  | newLayout label kind policy => exact progress_newLayout hs label kind policy
  | newScope l enclosing depth => exact progress_newScope hs h
  | newCache n => exact progress_newCache hs n
  | initializeEnclosing l parent =>
      obtain ⟨hl, hp⟩ := held_optional h
      exact ((spares_initializeEnclosing (hwf.roots _ hl) fun p hin =>
        hwf.roots _ (hp p hin)).advances hs).progress hs
  | relink l parent =>
      obtain ⟨hl, hp⟩ := held_optional h
      exact ((spares_relinkTo (hwf.roots _ hl) fun p hin => hwf.roots _ (hp p hin)).advances hs).progress hs
  | findOrAddSlot l n =>
      exact (advances_findOrAddSlot hs (hwf.roots _ (h _ List.mem_cons_self)) n).progress hs
  | invalidateNames l names =>
      exact (((Spares.refl s).invalidateNames l names).advances hs).progress hs
  | invalidateAll l => exact (((Spares.refl s).invalidateAll l).advances hs).progress hs
  | define a n v | assignNonLocal a n v =>
      simp only [Operation.operands, List.forall_mem_cons] at h
      exact (advances_bindName hs h.1 n h.2 _).progress hs
  | setActiveBinding a n g =>
      exact (advances_bindName hs (h _ List.mem_cons_self) n (v := .active g) (by simp [Value.refs])
        false).progress hs
  | write a slot v nonLocal =>
      simp only [Operation.operands, List.forall_mem_cons] at h
      exact (advances_write hs h.1 slot h.2 nonLocal).progress hs
  | remove a n => exact (advances_remove hs (h _ List.mem_cons_self) n).progress hs
  | markIrregular a =>
      exact (((Spares.refl s).modifyActivation (a := a) (f := fun act => { act with irregular := true })
        rfl rfl fun r hr => Or.inl hr).advances hs).progress hs
  | setEnclosing a parent =>
      obtain ⟨ha, hp⟩ := held_optional h
      exact ((spares_setEnclosing hwf (live_of_mem_roots ha) fun p hin =>
        live_of_mem_roots (hp p hin)).advances hs).progress hs
  | attach a inserted =>
      simp only [Operation.operands, List.forall_mem_cons] at h
      exact ((spares_attach hwf h.1 h.2.1).advances hs).progress hs
  | detachEnclosing a =>
      exact ((spares_detachEnclosing hwf (h _ List.mem_cons_self)).advances hs).progress hs
  | resolve a n =>
      exact ((spares_resolve hwf (live_of_mem_roots (h _ List.mem_cons_self)) n).1.advances
        hs).progress hs
  | cachedRead c a =>
      simp only [Operation.operands, List.forall_mem_cons] at h
      exact ((spares_cachedRead hwf (live_of_mem_roots h.2.1) c).advances hs).progress hs
  | registerContexts additional => exact haside ⟨rfl, rfl, rfl, rfl, rfl, rfl, rfl, rfl, rfl⟩
  | enterContext context => exact haside ⟨rfl, rfl, rfl, rfl, rfl, rfl, rfl, rfl, rfl⟩
  | leaveContext previous => exact haside ⟨rfl, rfl, rfl, rfl, rfl, rfl, rfl, rfl, rfl⟩
  | writeInContext a slot v =>
      simp only [Operation.operands, List.forall_mem_cons] at h
      exact (advances_writeInContext hs h.1 slot h.2).progress hs
  | fanOutSlot a slot contexts replicate =>
      exact (advances_fanOutSlot hs (h _ List.mem_cons_self) slot contexts replicate).progress hs
  | fanOutAll a contexts replicate =>
      exact (advances_fanOutAll hs (h _ List.mem_cons_self) contexts replicate).progress hs
  | cleanFanOut a contexts => exact (advances_cleanFanOut hs a contexts).progress hs

/-- What happens between two operations keeps a sound store sound. -/
theorem Elsewhere.progress (h : s.Elsewhere s₁) (hs : s.Sound) : s.Progress s₁ := by
  have halloc : ∀ a, s₁.Allocated (.activation a) → s.Allocated (.activation a) := fun a ha => by
    simpa only [Allocated, h.activations] using ha
  have hlive : ∀ a, s₁.Live (.activation a) → s.Live (.activation a) := fun a =>
    h.leads.live_before hs.wellFormed (halloc a)
  have hact : ∀ a, s₁.activation a = s.activation a := fun a => by
    simp only [activation, h.activations]
  have hlayoutOf : ∀ a, s₁.layoutOf a = s.layoutOf a := fun a => by simp only [layoutOf, hact]
  have hbindings : s₁.Bindings := by
    refine hs.bindings.of_activations h.layouts h.stables ?_ ?_ ?_ <;>
      simp only [hact, hlayoutOf, content]
    · exact fun a ha => hs.bindings.fits a (halloc a ha)
    · exact fun a ha => hs.bindings.unique a (hlive a ha)
    · exact fun a i t ha => hs.bindings.agree a i t (hlive a ha)
  exact ⟨⟨h.leads.wellFormed hs.wellFormed, hbindings⟩, h.leads.grows, fun _ => h.leads.live,
    .of_eq h.layouts h.stables⟩

theorem Step.progress (h : s.Step s₁) (hs : s.Sound) : s.Progress s₁ := by
  cases h with
  | operate op h => exact progress_perform hs h
  | elsewhere h => exact h.progress hs

/-- What every step makes of a sound store, a run makes of it. -/
theorem Run.progress (h : Run s s₁) (hs : s.Sound) : s.Progress s₁ := by
  induction h with
  | refl => exact .refl hs
  | tail _ hstep ih => exact ih.trans hs (hstep.progress ih.sound)

/-- A store with no objects is sound. -/
theorem sound_new (names : List String) : (Store.new names).Sound := by
  have hrefs : ∀ q, (Store.new names).refs q = [] := fun q => by cases q <;> rfl
  have hnone : ∀ r, ¬ (Store.new names).Allocated r := fun r => by cases r <;> exact Nat.not_lt_zero _
  have hwf : (Store.new names).WellFormed :=
    ⟨fun r hr => absurd hr List.not_mem_nil, fun q r hr => absurd (hrefs q ▸ hr) List.not_mem_nil,
      fun l r hr => absurd hr List.not_mem_nil⟩
  have htoken : ∀ {l i t}, (Store.new names).token l i ≠ some t := fun h => hnone _ (hwf.token h)
  have hlive : ∀ {r}, ¬ (Store.new names).Live r := fun h => hnone _ (h.allocated hwf)
  refine ⟨hwf, ?_⟩
  exact {
    kind _ _ _ h := absurd h htoken
    valid _ _ _ h := absurd h htoken
    unshared _ _ _ _ _ h := absurd h htoken
    owned _ h := absurd (allocated_of_stableValid h) (hnone _)
    unclaimed _ _ _ _ h := absurd h htoken
    fits _ h := absurd h (hnone _)
    unique _ h := absurd h hlive
    agree _ _ _ h := absurd h hlive }

theorem Reachable.sound (h : Reachable s) : s.Sound := by
  obtain ⟨names, hrun⟩ := h
  exact (hrun.progress (sound_new names)).sound

/-- Whether operations are passed only objects that are held, one after another. -/
def allHeld (s : Store) : List Operation → Bool
  | []        => true
  | op :: ops => op.operands.all s.roots.contains && allHeld (op.perform s) ops

theorem Run.of_allHeld {ops : List Operation} (h : s.allHeld ops = true) :
    Run s (ops.foldl Operation.perform s) := by
  induction ops generalizing s with
  | nil => exact .refl
  | cons op ops ih =>
      simp only [allHeld, Bool.and_eq_true, List.all_eq_true, List.contains_iff_mem] at h
      exact (ih h.2).head (.operate op h.1)

/-- Whether operations are passed only objects that are held, and each is fit when its turn comes. -/
def allFit (fit : Store → Operation → Bool) (s : Store) : List Operation → Bool
  | []        => true
  | op :: ops => op.operands.all s.roots.contains && fit s op && allFit fit (op.perform s) ops

/-- Operations that are fit are steps of another kind, if each one alone is. -/
theorem steps_of_allFit {fit : Store → Operation → Bool} {R : Store → Store → Prop}
    (hstep : ∀ s (op : Operation), (∀ r ∈ op.operands, r ∈ s.roots) → fit s op = true → R s (op.perform s))
    {ops : List Operation} (h : allFit fit s ops = true) :
    Relation.ReflTransGen R s (ops.foldl Operation.perform s) := by
  induction ops generalizing s with
  | nil => exact .refl
  | cons op ops ih =>
      simp only [allFit, Bool.and_eq_true, List.all_eq_true, List.contains_iff_mem] at h
      exact (ih h.2).head (hstep s op h.1.1 h.1.2)

/-! ## Tokens in step -/

/-- The token of a slot says what the slot of an activation holds, and is valid. -/
structure InStep (s : Store) (a : ActivationId) (i : Nat) (t : StableId) : Prop where
  valid : s.stableValid t = true
  shared : s.isFannedOut a i = false
  empty : (s.stable t).value = none ↔ s.content a i = .empty
  value : ∀ v, (s.stable t).value = some v ↔ s.content a i = .value v

theorem Sound.inStep (hs : s.Sound) {a : ActivationId} (ha : s.Live (.activation a)) {i : Nat}
    {t : StableId} (ht : s.token (s.layoutOf a) i = some t) : s.InStep a i t := by
  have hagree := hs.bindings.agree a i t ha ht not_false
  refine ⟨hs.bindings.valid _ _ _ ht, ?_, ?_, fun v => ?_⟩
  · rw [isFannedOut, hagree]
    cases (s.stable t).value <;> rfl
  · rw [hagree]
    cases (s.stable t).value <;> simp [SlotContent.ofOption]
  · rw [hagree]
    cases (s.stable t).value <;> simp [SlotContent.ofOption]

/-- A token that a slot held earlier and that is still valid is the one that the slot holds now. -/
theorem Progress.token (h : s.Progress s₁) {l : LayoutId} {i : Nat} {t : StableId}
    (ht : s.token l i = some t) (hvalid : s₁.stableValid t = true) : s₁.token l i = some t := by
  refine (h.later.dropped l i t ht).resolve_right fun hf => ?_
  rw [hvalid] at hf
  exact absurd hf Bool.noConfusion

/-- **Stable values are never out of step with the stored binding.** In a store that a program can come
    to, each token of the live activation of a layout that admits one describes what the slot holds. A
    slot that was given up is not tracked again. A token that a slot held earlier is the one that it
    holds now, or invalid; so results for one binding that are valid at the same time share one token,
    and a valid token is that of just one slot. -/
theorem stable_values_in_step (h : Reachable s) :
    (∀ a, s.Live (.activation a) → (s.layout (s.layoutOf a)).kind.isSingleton = true →
      ∀ i t, s.token (s.layoutOf a) i = some t → s.InStep a i t)
    ∧ (∀ s₁, Reachable s₁ → Run s₁ s → ∀ l i, i < (s₁.layout l).slots.size →
      i < (s.layout l).slots.size ∧ (s₁.token l i = none → s.token l i = none)
        ∧ ∀ t, s₁.token l i = some t → s.token l i = some t ∨ s.stableValid t = false)
    ∧ (∀ s₁ s₂, Reachable s₁ → Run s₁ s → Reachable s₂ → Run s₂ s → ∀ l i t u g k,
      s₁.token l i = some t → s₂.token l i = some u → s.resultValid (.stable t g) = true →
        s.resultValid (.stable u k) = true → t = u)
    ∧ ∀ t g, s.resultValid (.stable t g) = true → ∃ l i, s.token l i = some t
      ∧ ∀ l' i', s.token l' i' = some t → l' = l ∧ i' = i := by
  have hs := h.sound
  refine ⟨fun a ha _ i t ht => hs.inStep ha ht, ?_, ?_, ?_⟩
  · intro s₁ h₁ hrun l i hi
    have hp := hrun.progress h₁.sound
    obtain ⟨info, hslot⟩ : ∃ info, s₁.slot? l i = some info :=
      ⟨_, Array.getElem?_eq_some_iff.2 ⟨hi, rfl⟩⟩
    obtain ⟨info', hslot', -, hnone⟩ := hp.later.slots l i info hslot
    refine ⟨(Array.getElem?_eq_some_iff.1 hslot').1, fun hn => ?_, hp.later.dropped l i⟩
    simp only [Store.token, hslot, hslot', Option.bind_some] at hn ⊢
    exact hnone hn
  · intro s₁ s₂ h₁ hrun₁ h₂ hrun₂ l i t u g k ht hu hgt hku
    have hgt := (Bool.and_eq_true_iff.1 hgt).2
    have hku := (Bool.and_eq_true_iff.1 hku).2
    have ht := (hrun₁.progress h₁.sound).token ht hgt
    have hu := (hrun₂.progress h₂.sound).token hu hku
    exact Option.some.inj (ht.symm.trans hu)
  · intro t g hg
    obtain ⟨l, i, ht⟩ := hs.bindings.owned t (Bool.and_eq_true_iff.1 hg).2
    exact ⟨l, i, ht, fun l' i' ht' => hs.bindings.unshared l' i' l i t ht' ht⟩

/-- A module whose one variable is set twice: the third stable value describes it. -/
theorem stable_value_of_reset :
    let ops : List Operation := [.newLayout "m" .singleton {}, .newScope ⟨0⟩ none 0,
      .define ⟨0⟩ ⟨2⟩ (.int 5), .define ⟨0⟩ ⟨2⟩ (.int 6)]
    let s := ops.foldl Operation.perform (.new ["x"])
    Reachable s ∧ s.token (s.layoutOf ⟨0⟩) 0 = some ⟨2⟩ ∧ s.InStep ⟨0⟩ 0 ⟨2⟩ := by
  intro ops s
  have hreach : Reachable s := by
    refine ⟨["x"], ?_⟩
    have h₁ : Run (.new ["x"]) _ := .single (.operate (.newLayout "m" .singleton {}) (by decide))
    have h₂ := h₁.tail (.operate (.newScope ⟨0⟩ none 0) (by decide +kernel))
    have h₃ := h₂.tail (.operate (.define ⟨0⟩ ⟨2⟩ (.int 5)) (by decide +kernel))
    exact h₃.tail (.operate (.define ⟨0⟩ ⟨2⟩ (.int 6)) (by decide +kernel))
  have ht : s.token (s.layoutOf ⟨0⟩) 0 = some ⟨2⟩ := by decide +kernel
  exact ⟨hreach, ht, (stable_values_in_step hreach).1 ⟨0⟩ (live_of_mem_roots (by decide +kernel))
    (by decide +kernel) 0 ⟨2⟩ ht⟩

end Store

end ScopeCall
