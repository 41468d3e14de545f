import ScopeCall.Proofs.Caching
import ScopeCall.Proofs.Placing
import ScopeCall.Proofs.Preparing

/-!
# `ScopeCall.Proofs.Spanning` — what a call does to scopes

A call looks names up, makes a scope for its callee and writes the arguments into it. Whatever else it does
(matching, changing the nodes of its site, copying a body, counting it) has nothing to do with scopes. So a
relation between stores that these few steps stay within, the whole call stays within, whoever matches the
arguments and whichever node runs it; and what a call does before it gives control to its callee is only to look
names up.

## Contents
- **Beside scopes.** `Store.Besides`.
- **Up to the callee.** `Store.Readied`, with what is as it was.
- **Staying within.** `Store.Spans`, and what giving control to a callee stays within.
- **Preparation.** `Chain.prepares_prepare`: it makes no scope, and reads the depth limit of the site.
- **Calls.** `Chain.within_execute` and `Chain.within_executeSite`.
-/

namespace ScopeCall

namespace Store

variable {s s₁ s₂ : Store} {R : Store → Store → Prop} {ε α β : Type}

/-! ## Beside scopes -/

/-- Scopes are as they were, and so is all that is noted about them; functions are, but for the number of
    copies of their bodies, and call sites, but for their nodes. -/
structure Besides (s s' : Store) : Prop where
  rest : s' = { s with
    heap := s'.heap
    callables := s'.callables
    targets := s'.targets
    demands := s'.demands
    sites := s'.sites
    stack := s'.stack
    matchLog := s'.matchLog }
  size : s'.callables.size = s.callables.size
  callable : ∀ c, s'.callable c = { s.callable c with copies := (s'.callable c).copies }
  sites : s'.sites.size = s.sites.size
  site : ∀ i, s'.site i = { s.site i with nodes := (s'.site i).nodes }

namespace Besides

/-- Functions and call sites are as they were, too. -/
theorem of_rest (h : s₁ = { s with
    heap := s₁.heap
    targets := s₁.targets
    demands := s₁.demands
    stack := s₁.stack
    matchLog := s₁.matchLog }) : s.Besides s₁ := by
  rw [h]
  exact ⟨rfl, rfl, fun _ => rfl, rfl, fun _ => rfl⟩

/-- Nodes of a site change. -/
theorem modifySite (s : Store) (i : SiteId) {f : CallSite → CallSite}
    (hf : ∀ site, f site = { site with nodes := (f site).nodes }) : s.Besides (s.modifySite i f) := by
  refine ⟨rfl, rfl, fun _ => rfl, Array.size_modify, fun j => ?_⟩
  rw [site_modifySite]
  split
  · rename_i h
    rw [h.1]
    exact hf _
  · rfl

theorem refl (s : Store) : s.Besides s := of_rest rfl

theorem trans (h : s.Besides s₁) (h' : s₁.Besides s₂) : s.Besides s₂ where
  rest := by
    rw [h'.rest, h.rest]
  size := h'.size.trans h.size
  callable c := by
    rw [h'.callable, h.callable]
  sites := h'.sites.trans h.sites
  site i := by
    rw [h'.site, h.site]

/-- What does not look at functions, sites, texts and references is the same. -/
theorem layouts (h : s.Besides s₁) : s₁.layouts = s.layouts := by
  rw [h.rest]

theorem activations (h : s.Besides s₁) : s₁.activations = s.activations := by
  rw [h.rest]

theorem guards (h : s.Besides s₁) : s₁.guards = s.guards := by
  rw [h.rest]

theorem copied (s : Store) (c : CallableId) (t : TargetId) : s.Besides (s.copied c t) :=
  ⟨rfl, Array.size_modify, fun d => callable_copied s c d t, rfl, fun _ => rfl⟩

end Besides

/-! ## Up to the callee -/

/-- What a call does up to its callee: names are looked up, and what has to do with no scope happens besides. -/
def Readied : Store → Store → Prop := Relation.ReflTransGen fun s s' => s.Besides s' ∨ s.Notes s'

theorem Readied.refl (s : Store) : s.Readied s := Relation.ReflTransGen.refl

theorem Readied.trans (h : s.Readied s₁) (h' : s₁.Readied s₂) : s.Readied s₂ := Relation.ReflTransGen.trans h h'

theorem Besides.readied (h : s.Besides s₁) : s.Readied s₁ := .single (.inl h)

theorem Notes.readied (h : s.Notes s₁) : s.Readied s₁ := .single (.inr h)

/-- Activations are as they were. -/
theorem Readied.activations (h : s.Readied s₁) : s₁.activations = s.activations := by
  induction h with
  | refl => rfl
  | tail _ hstep ih =>
      rcases hstep with hb | hn
      · exact hb.activations.trans ih
      · rw [hn.rest]
        exact ih

/-- Layouts are as they were, but for what is noted of lookups. -/
theorem Readied.layout (h : s.Readied s₁) (k : LayoutId) : (s₁.Allocated (.layout k) ↔ s.Allocated (.layout k))
    ∧ s₁.layout k = { s.layout k with
      recorded := (s₁.layout k).recorded
      memos := (s₁.layout k).memos } := by
  induction h with
  | refl => exact ⟨.rfl, rfl⟩
  | tail _ hstep ih =>
      obtain ⟨hiff, hlayout⟩ := ih
      rcases hstep with hb | hn
      · rw [Allocated, Store.layout, hb.layouts]
        exact ⟨hiff, hlayout⟩
      · refine ⟨?_, ?_⟩
        · rw [Allocated, hn.size]
          exact hiff
        · rw [hn.layout, hlayout]

/-- Functions are as they were, but for the number of copies of their bodies. -/
theorem Readied.kind (h : s.Readied s₁) (c : CallableId) : (s₁.callable c).kind = (s.callable c).kind := by
  induction h with
  | refl => rfl
  | tail _ hstep ih =>
      rcases hstep with hb | hn
      · rw [hb.callable]
        exact ih
      · rw [Store.callable, hn.rest]
        exact ih

/-- The depth limits of call sites are as they were. -/
theorem Readied.maxDepth (h : s.Readied s₁) (i : SiteId) : (s₁.site i).maxDepth = (s.site i).maxDepth := by
  induction h with
  | refl => rfl
  | tail _ hstep ih =>
      rcases hstep with hb | hn
      · rw [hb.site]
        exact ih
      · rw [Store.site, hn.rest]
        exact ih

/-- Evaluating arguments looks names up. -/
theorem steady_readied {σ : Type} (getters : Getters σ) : EvalM.Steady getters Readied where
  refl := .refl
  trans := .trans
  hold _ _ := Besides.readied (.of_rest rfl)
  cachedRead s c a := (Notes.cachedRead s c a).readied
  getter _ _ := Besides.readied (.of_rest rfl)

/-! ## Staying within -/

/-- A relation between stores that all steps of a call stay within. -/
structure Spans (R : Store → Store → Prop) : Prop where
  refl : ∀ s, R s s
  trans : ∀ {s s' s''}, R s s' → R s' s'' → R s s''
  besides : ∀ {s s'}, s.Besides s' → R s s'
  notes : ∀ {s s'}, s.Notes s' → R s s'
  newScope : ∀ s l enclosing depth, R s ((Store.newScope l enclosing depth).run.run s).2
  findOrAddSlot : ∀ s l n, R s ((Store.findOrAddSlot l n).run s).2
  write : ∀ s a slot v, R s ((Store.write a slot v false).run.run s).2

theorem Spans.readied (h : Spans R) (hs : s.Readied s₁) : R s s₁ := by
  induction hs with
  | refl => exact h.refl _
  | tail _ hstep ih => exact h.trans ih (hstep.elim h.besides h.notes)

/-- An operation that stays within a relation, however it ends. -/
def Stays (R : Store → Store → Prop) (act : ExceptT ε StoreM α) : Prop := ∀ s : Store, R s (act.run.run s).2

theorem stays_get_bind {f : Store → ExceptT ε StoreM α} (hf : ∀ s, Stays R (f s)) :
    Stays R (get >>= f) :=
  fun s => hf s s

theorem stays_ofFaultM {act : FaultM α} (hact : Stays R act) : Stays R (CallM.ofFaultM act) := by
  intro s
  rw [ofFaultM_run]
  exact hact s

theorem besides_dispatchTarget (i : SiteId) (id : NodeId) (d : Dispatch) (s : Store) :
    s.Besides ((Chain.dispatchTarget i id d).run s).2 := by
  have hset : ∀ (s : Store) nodes, s.Besides (s.setNodes i nodes) := fun s nodes =>
    .modifySite s i fun _ => rfl
  rw [dispatchTarget_run]
  split
  · rw [dedicatedCopy_run]
    cases (s.callable d.callable).target? with
    | none => exact hset s _
    | some t => exact (Besides.copied s d.callable t).trans (hset _ _)
  · exact .refl s

namespace Spans

variable (h : Spans R)

include h

theorem stays_pure (r : α) : Stays R (pure r : ExceptT ε StoreM α) := fun s => h.refl s

theorem stays_bind {act : ExceptT ε StoreM β} {f : β → ExceptT ε StoreM α} (hact : Stays R act)
    (hf : ∀ b, Stays R (f b)) : Stays R (act >>= f) := by
  intro s
  have hs := hact s
  rw [run_except_bind]
  generalize act.run.run s = result at hs ⊢
  rcases result with ⟨e | b, s₁⟩
  · exact hs
  · exact h.trans hs (hf b s₁)

theorem stays_bindArguments (a : ActivationId) (args : List (Formal × Option Value)) :
    Stays R (bindArguments a args) := by
  induction args with
  | nil => exact h.stays_pure _
  | cons arg rest ih =>
      rcases arg with ⟨f, _ | v⟩
      · exact ih
      · unfold bindArguments
        refine stays_get_bind fun s => h.stays_bind (fun s₁ => h.findOrAddSlot s₁ _ f.name) fun slot => ?_
        exact h.stays_bind (fun s₁ => h.write s₁ a slot v) fun _ => ih

/-- **Giving control to a callee** makes a scope, and writes into it. -/
theorem stays_invoke (maxDepth : Nat) (caller : ActivationId) (c : CallableId) (target : Option TargetId)
    (args : List (Option Value)) (demand : CallerDemand) :
    Stays R (invoke maxDepth caller c target args demand) := by
  have hhold : ∀ rs, Stays R (modify (·.hold rs) : CallM Unit) := fun rs s => h.besides (.of_rest rfl)
  unfold invoke
  refine h.stays_bind (hhold _) fun _ => stays_get_bind fun s => ?_
  dsimp only
  cases (s.callable c).kind with
  | intrinsic body => exact h.stays_pure _
  | closure l enclosing shared =>
      dsimp only
      split
      · exact fun s => h.refl s
      · refine h.stays_bind (stays_ofFaultM fun s => h.newScope s l _ _) fun a => ?_
        refine h.stays_bind (hhold _) fun _ => ?_
        refine h.stays_bind (stays_ofFaultM (h.stays_bindArguments a _)) fun _ => stays_get_bind fun s₁ => ?_
        exact h.stays_bind (fun s => h.besides (.of_rest rfl)) fun _ => h.stays_pure _

end Spans

end Store

namespace Chain

variable {σ α : Type} {R : Store → Store → Prop} {getters : Getters σ} {i : SiteId} {c : CallableId}
  {caller : ActivationId}

theorem within_onCall {act : CallM α} (hact : Store.Stays R act) :
    EvalM.Within R (EvalM.onCall act : EvalM σ α) := fun m => hact m.store

theorem besides_setNode (i : SiteId) (id : NodeId) (n : Node) (s : Store) :
    s.Besides ((modify (setNode · i id n) : StoreM Unit).run s).2 := .modifySite s i fun _ => rfl

theorem besides_addNode (i : SiteId) (n : Node) (s : Store) : s.Besides ((addNode i n).run s).2 :=
  .modifySite s i fun _ => rfl

/-! ## Preparation -/

theorem within_ofFault (r : Except Fault α) : EvalM.Within Store.Readied (ofFault r : EvalM σ α) := by
  cases r <;> exact fun m => .refl m.store

theorem within_onStore {act : StoreM α} (hact : ∀ s : Store, s.Besides (act.run s).2) :
    EvalM.Within Store.Readied (EvalM.onStore act : EvalM σ α) := fun m => (hact m.store).readied

theorem within_runMatcher (matcher : Matcher) (c : CallableId) (supplied : SuppliedNames) (source : String)
    (allowReorder : Bool) : EvalM.Within Store.Readied
      (EvalM.onCall (Store.runMatcher matcher c supplied source allowReorder) : EvalM σ MatchedArguments) := by
  have hexcept : ∀ r : Except EvalError MatchedArguments,
      Store.Stays Store.Readied (Store.runMatcher.liftExcept r) := by
    intro r
    cases r <;> exact fun s => .refl s
  apply within_onCall
  cases matcher with
  | standard => exact Store.stays_get_bind fun s => hexcept _
  | recording =>
      intro s
      have hlog : s.Besides { s with
          matchLog := s.matchLog
            ++ [⟨(s.callable c).label, supplied.map (·.map s.spell), source, allowReorder⟩] } := .of_rest rfl
      exact hlog.readied.trans (Store.stays_get_bind (fun s => hexcept _) _)
  | fixed answer => exact fun s => .refl s
  | refusing message => exact fun s => .refl s

/-- A preparation: it makes no scope, and reads the depth limit of the site. -/
def Prepares (i : SiteId) (limit : Nat) (act : EvalM σ Prepared) : Prop :=
  ∀ m, (m.store.site i).maxDepth = limit → m.store.Readied (act.run.run m).2.store
    ∧ ∀ p, (act.run.run m).1 = .ok p → p.maxDepth = limit

section

variable {limit : Nat}

theorem prepares_bind {act : EvalM σ α} {f : α → EvalM σ Prepared} (hact : EvalM.Within Store.Readied act)
    (hf : ∀ a, Prepares i limit (f a)) : Prepares i limit (act >>= f) := by
  intro m hlimit
  have hm := hact m
  rw [EvalM.run_bind]
  generalize act.run.run m = result at hm ⊢
  rcases result with ⟨e | a, m₁⟩
  · exact ⟨hm, fun p hp => by cases hp⟩
  · obtain ⟨hreadied, hread⟩ := hf a m₁ ((hm.maxDepth i).trans hlimit)
    exact ⟨hm.trans hreadied, hread⟩

theorem prepares_store_bind {f : Store → EvalM σ Prepared}
    (hf : ∀ s : Store, (s.site i).maxDepth = limit → Prepares i limit (f s)) :
    Prepares i limit (EvalM.store >>= f) := fun m hlimit => hf m.store hlimit m hlimit

theorem prepares_throw (e : EvalError) : Prepares i limit (throw e : EvalM σ Prepared) :=
  fun m _ => ⟨.refl m.store, fun p hp => by cases hp⟩

/-- What follows a match: values are evaluated, and bound to a cached callee. -/
theorem prepares_evaluate (id : NodeId) (d : Dispatch) (args : Arguments)
    (entries : List (List GroupEntry)) (names : SuppliedNames) :
    Prepares i limit (do let values ← Arguments.evaluate getters caller args entries
                         EvalM.onCall (prepareDispatch i id d names values) : EvalM σ Prepared) := by
  refine prepares_bind ((Store.steady_readied getters).within_evaluate caller args entries) fun values m hlimit => ?_
  have hheap : m.store.Besides { m.store with
      heap := ((d.matched.bind (m.store.callable d.callable).formals names values).run m.store.heap).2 } :=
    .of_rest rfl
  constructor
  · exact (hheap.trans (Store.besides_dispatchTarget i id d _)).readied
  · intro p hp
    obtain rfl := Except.ok.inj hp
    exact hlimit

theorem prepares_fixed (id : NodeId) (d : Dispatch) : Prepares i limit (prepareFixed getters i id d caller) :=
  prepares_store_bind fun _ _ => prepares_evaluate id d _ _ _

theorem prepares_generic (demand : CallerDemand) :
    Prepares i limit (prepareGeneric getters i demand caller c) := by
  have hsteady := Store.steady_readied getters
  unfold prepareGeneric
  refine prepares_store_bind fun s hlimit => prepares_bind (hsteady.of_result _) fun _ => ?_
  refine prepares_bind (hsteady.of_result _) fun groups => prepares_bind (hsteady.within_hold _) fun _ => ?_
  refine prepares_bind (within_runMatcher _ c _ _ true) fun matched => ?_
  refine prepares_bind (hsteady.within_evaluate caller _ _) fun values m _ => ⟨?_, fun p hp => ?_⟩
  · exact Store.Besides.readied (.of_rest rfl)
  · obtain rfl := Except.ok.inj hp
    exact hlimit

theorem prepares_lastly (id : NodeId) (final : CallerDemand → Node) :
    Prepares i limit (prepareLastly getters i id final caller c) := by
  unfold prepareLastly
  refine prepares_bind (within_onStore fun s => .of_rest rfl) fun demand => ?_
  refine prepares_bind (within_onStore (besides_setNode i id _)) fun _ => ?_
  exact prepares_generic demand

theorem prepares_shape (id : NodeId) (depth : Nat) (signature : SuppliedNames)
    (entries : List (List GroupEntry)) :
    Prepares i limit (prepareShape getters i id depth signature entries caller c) := by
  unfold prepareShape
  refine prepares_store_bind fun s _ => ?_
  dsimp only
  split
  · exact prepares_lastly id _
  · refine prepares_bind (within_runMatcher _ c _ _ false) fun matched => ?_
    refine prepares_bind (within_onStore fun s => ?_) fun next => ?_
    · split
      · exact besides_addNode i _ s
      · have hdemand : s.Besides (demanding s false) := .of_rest rfl
        exact hdemand.trans (besides_addNode i _ _)
    · refine prepares_bind (within_onStore fun s => .of_rest rfl) fun d => ?_
      refine prepares_bind (within_onStore (besides_setNode i id _)) fun _ => ?_
      exact prepares_evaluate id d _ entries signature

theorem prepares_variadic (start : NodeId) :
    Prepares i limit (prepareVariadic getters i start caller c) := by
  have hsteady := Store.steady_readied getters
  unfold prepareVariadic
  refine prepares_store_bind fun s _ => prepares_bind (hsteady.of_result _) fun groups => ?_
  refine prepares_bind (hsteady.within_hold _) fun _ => prepares_bind (within_ofFault _) fun found => ?_
  rcases found with ⟨id, n⟩
  cases n with
  | variadicCase names d next => exact prepares_evaluate id d _ _ _
  | variadicVacant depth => exact prepares_shape id depth _ _
  | variadicGeneric demand => exact prepares_generic demand
  | _ => exact prepares_throw _

theorem prepares_link (id : NodeId) (depth limit' : Nat) (handler : Node) :
    Prepares i limit (prepareLink getters i id depth limit' caller c handler) := by
  have hadd : ∀ tail (s : Store), s.Besides ((do
      let handlerId ← addNode i handler
      let next ← addNode i tail
      return (handlerId, next) : StoreM (NodeId × NodeId)).run s).2 := fun tail s =>
    (besides_addNode i handler s).trans (besides_addNode i tail _)
  unfold prepareLink
  refine prepares_bind (within_onStore fun s => ?_) fun ends => ?_
  · split
    · exact hadd _ s
    · have hdemand : s.Besides (demanding s false) := .of_rest rfl
      exact hdemand.trans (hadd _ _)
  · refine prepares_bind (within_onStore (besides_setNode i id _)) fun _ => ?_
    cases handler with
    | fixed d => exact prepares_fixed _ d
    | _ => exact prepares_variadic _

theorem prepares_new (id : NodeId) (depth : Nat) :
    Prepares i limit (prepareNew getters i id depth caller c) := by
  have hsteady := Store.steady_readied getters
  unfold prepareNew
  refine prepares_store_bind fun s _ => prepares_bind (hsteady.of_result _) fun _ => ?_
  dsimp only
  split
  · exact prepares_lastly id _
  · split
    · rw [pure_bind]
      exact prepares_link id depth _ _
    · refine prepares_bind (within_runMatcher _ c _ _ false) fun matched => ?_
      refine prepares_bind (fun m => ?_) fun handler => prepares_link id depth _ handler
      rw [newFixed_run]
      exact Store.Besides.readied (.of_rest rfl)

/-- **A call makes no scope before it gives control to its callee**, and then it is held to the limit of its
    site. -/
theorem prepares_prepare (getters : Getters σ) (i : SiteId) (caller : ActivationId) (c : CallableId) :
    Prepares i limit (prepare getters i caller c) := by
  unfold prepare
  refine prepares_store_bind fun s _ => prepares_bind (within_ofFault _) fun found => ?_
  rcases found with ⟨id, n⟩
  cases n with
  | vacant depth => exact prepares_new id depth
  | fixed d => exact prepares_fixed id d
  | generic demand => exact prepares_generic demand
  | variadicGeneric demand => exact prepares_generic demand
  | variadicVacant depth => exact prepares_variadic id
  | variadicCase names d next => exact prepares_variadic id
  | link callee handler next => exact prepares_throw _

theorem prepares_prepareSite (getters : Getters σ) (i : SiteId) (caller : ActivationId) :
    Prepares i limit (prepareSite getters i caller) :=
  prepares_bind (calleeOf_within (Store.steady_readied getters) i caller) (prepares_prepare getters i caller)

end

/-! ## Calls -/

section

variable (h : Store.Spans R)

include h

theorem within_thenEnter {limit : Nat} {act : EvalM σ Prepared} (hact : Prepares i limit act) (m : Machine σ)
    (hlimit : (m.store.site i).maxDepth = limit) :
    R m.store ((thenEnter caller act).run.run m).2.store := by
  have hprepared := h.readied (hact m hlimit).1
  unfold thenEnter
  rw [EvalM.run_bind]
  generalize act.run.run m = result at hprepared ⊢
  rcases result with ⟨e | p, m₁⟩
  · exact hprepared
  · have henter := h.stays_invoke p.maxDepth caller p.callable p.target p.args p.demand m₁.store
    exact h.trans hprepared henter

/-- **What the steps of a call stay within, every call stays within**, however it ends. -/
theorem within_execute (getters : Getters σ) (i : SiteId) (caller : ActivationId) (c : CallableId) :
    EvalM.Within R (execute getters i caller c) := by
  rw [execute_eq]
  exact fun m => within_thenEnter h (prepares_prepare getters i caller c) m rfl

/-- So does evaluating the callee before it. -/
theorem within_executeSite (getters : Getters σ) (i : SiteId) (caller : ActivationId) :
    EvalM.Within R (executeSite getters i caller) := by
  rw [executeSite_eq_prepareSite]
  exact fun m => within_thenEnter h (prepares_prepareSite getters i caller) m rfl

end

end Chain

end ScopeCall
