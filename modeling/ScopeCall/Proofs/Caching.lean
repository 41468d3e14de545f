import Mathlib.Logic.Relation
import ScopeCall.Proofs.Transparency

/-!
# `ScopeCall.Proofs.Caching` — caching at call sites is transparent

However a call site has been used before, a call through it is the call that it would be if nothing were
cached. Calls leave the nodes of their site in good order, and whatever else happens meanwhile leaves them
alone; so they are in order whenever a call starts.

## Contents
- **One call.** `transparent_of_served`, and `Transparent.serves`.
- **Meanwhile.** Making functions and sites, and calls through other sites: `leavesSite_newClosure`,
  `leavesSite_execute`.
- **Runs.** `CallStep`, and `serves_of_run`.
- **Transparency.** `execute_transparent`.
-/

namespace ScopeCall

namespace Chain

variable {σ : Type} {getters : Getters σ} {i j : SiteId} {caller : ActivationId} {c : CallableId}
  {m m' : Machine σ} {owner : Nat → Option CallableId}

/-! ## One call -/

/-- **A call through a site whose nodes are in order is transparent**, whichever node it comes to. -/
theorem transparent_of_served (getters : Getters σ) (caller : ActivationId) (hc : m.store.InHand c)
    (hs : m.store.Served i owner) :
    Transparent getters i caller c m ((execute getters i caller c).run.run m) := by
  obtain ⟨id, n, hfollow, hn, howner, hlink⟩ := hs.follow c ((m.store.site i).nodes.size + 1) .root
    hs.root.1 (by omega) (Or.inl hs.root.2)
  have hfits := hs.fits _ _ hn
  unfold execute
  rw [EvalM.run_store_bind]
  dsimp only
  rw [hfollow, run_ofFault_bind]
  cases n with
  | vacant depth => exact specialize_transparent hc hs hn
  | fixed d =>
      have hmade : owner id.index = some c :=
        howner.resolve_left fun hnone => Option.some_ne_none _ (hfits.1.symm.trans hnone)
      exact runFixed_transparent (.refl i m) hs.bodies hs hn (Option.some.inj (hfits.1.symm.trans hmade))
  | generic demand => exact runGeneric_transparent (.of_alike (.refl i m)) hs.bodies hs demand
  | variadicGeneric demand => exact runGeneric_transparent (.of_alike (.refl i m)) hs.bodies hs demand
  | variadicVacant depth =>
      exact runVariadic_transparent (.refl i m) hs.bodies hc hs hn (howner.resolve_left hfits.1) hfits.2
  | variadicCase names d next =>
      have hmade : owner id.index = some c :=
        howner.resolve_left fun hnone => Option.some_ne_none _ (hfits.1.symm.trans hnone)
      exact runVariadic_transparent (.refl i m) hs.bodies hc hs hn hmade hfits.2.1
  | link c' handler next => exact absurd rfl (hlink c' handler next)

/-- A transparent call leaves the nodes of its site in order. -/
theorem Transparent.serves {result : Except EvalError Entry × Machine σ}
    (h : Transparent getters i caller c m result) : result.2.store.Serves i := by
  unfold Transparent at h
  generalize (gather getters i caller c).run.run m = gathered at h
  rcases gathered with ⟨e | bound, m₁⟩
  · exact h.2.2
  · obtain ⟨target, demand, m₂, -, ⟨owner, hs⟩, -, rfl⟩ := h
    exact ⟨owner, hs.meanwhile (Store.meanwhile_invoke i _ caller c target bound demand m₂.store)⟩

end Chain

/-! ## Meanwhile -/

namespace Store

variable {s : Store} {i j : SiteId}

/-- A function is made with a body that exists. -/
theorem meanwhile_newCallable (i : SiteId) (s : Store) (callable : Callable)
    (h : ∀ t, callable.target? = some t → t.index < s.targets.size) :
    s.Meanwhile i ((newCallable callable).run s).2 := by
  have hsize : (s.callables.push callable).size = s.callables.size + 1 := Array.size_push callable
  have hget : ∀ c, ((newCallable callable).run s).2.callable c
      = if c.index = s.callables.size then callable else s.callable c :=
    fun c => Array.getD_push s.callables callable c.index
  refine ⟨le_rfl, rfl, ?_, fun c hc => ?_, le_rfl, fun _ _ => rfl, fun hbodies c t ht => ?_⟩
  · exact Nat.le_of_lt (Nat.lt_of_lt_of_eq (Nat.lt_succ_self _) hsize.symm)
  · rw [hget, if_neg (Nat.ne_of_lt hc)]
  · rw [hget] at ht
    split at ht
    · exact h t ht
    · exact hbodies c t ht

theorem meanwhile_newTarget (i : SiteId) (s : Store) (target : CallTarget) :
    s.Meanwhile i ((newTarget target).run s).2 := by
  have hsize : (s.targets.push target).size = s.targets.size + 1 := Array.size_push target
  have hlt : s.targets.size < (s.targets.push target).size :=
    Nat.lt_of_lt_of_eq (Nat.lt_succ_self _) hsize.symm
  refine ⟨le_rfl, rfl, le_rfl, fun _ _ => rfl, Nat.le_of_lt hlt, fun t ht => ?_, fun hbodies c t ht =>
    Nat.lt_trans (hbodies c t ht) hlt⟩
  exact congrArg CallTarget.body
    ((Array.getD_push s.targets target t.index).trans (if_neg (Nat.ne_of_lt ht)))

/-- **Making a closure leaves the functions there are alone.** -/
theorem leavesSite_newClosure (i : SiteId) (spec : CallableSpec) (enclosing : ActivationId)
    (body : BodyId) : LeavesSite i (newClosure spec enclosing body) := by
  unfold newClosure
  refine .bind (fun s => .of_eq rfl rfl rfl) fun l => .get_bind fun s => ?_
  refine .bind (fun s => (sameCalls_initializeEnclosing s l _).meanwhile i) fun _ => ?_
  have hformals : ∀ fs : List Formal, LeavesSite i (fs.forM fun f => discard (findOrAddSlot l f.name) :
      FaultM Unit) := by
    intro fs
    induction fs with
    | nil => exact .of_pure _
    | cons f fs ih => exact .bind (fun s => (sameCalls_findOrAddSlot s l f.name).meanwhile i) fun _ => ih
  refine .bind (hformals spec.formals) fun _ s => ?_
  refine (meanwhile_newTarget i s { body, dedicated := false }).trans
    (meanwhile_newCallable i _ _ fun t ht => ?_)
  obtain rfl := Option.some.inj ht
  exact Nat.lt_of_lt_of_eq (Nat.lt_succ_self _) (Array.size_push _).symm

theorem meanwhile_modifySite (s : Store) (h : j ≠ i) (f : CallSite → CallSite) :
    s.Meanwhile i (s.modifySite j f) where
  sites := by
    have hsize : (s.modifySite j f).sites.size = s.sites.size := Array.size_modify
    exact hsize.ge
  site := by
    rw [site_modifySite, if_neg fun hi => h hi.1.symm]
  callables := le_rfl
  callable _ _ := rfl
  targets := le_rfl
  body _ _ := rfl
  bodies h := h

/-- A site is made without a look at any other. -/
theorem meanwhile_newSite (hi : s.Allocated (.site i)) (site : CallSite) :
    s.Meanwhile i ((newSite site).run s).2 where
  sites := by
    have hsize : (s.sites.push site).size = s.sites.size + 1 := Array.size_push site
    exact Nat.le_of_lt (Nat.lt_of_lt_of_eq (Nat.lt_succ_self _) hsize.symm)
  site := (Array.getD_push s.sites site i.index).trans (if_neg (Nat.ne_of_lt hi))
  callables := le_rfl
  callable _ _ := rfl
  targets := le_rfl
  body _ _ := rfl
  bodies h := h

/-- A site that has not been called through, in a store where each function runs a body that exists. -/
structure Uncalled (s : Store) (i : SiteId) : Prop where
  site : s.Allocated (.site i)
  standard : (s.site i).matcher = .standard
  nodes : (s.site i).nodes = #[.vacant 0]
  bodies : s.BodiesExist

/-- Where there are no functions yet, there is no body to miss. -/
theorem bodiesExist_new (names : List String) : (Store.new names).BodiesExist := by
  intro c t ht
  have hnone : (Store.new names).callable c = default := rfl
  rw [hnone] at ht
  cases ht

/-- A site with the standard rules has not been called through when it is made. -/
theorem uncalled_newSite (h : s.BodiesExist) {site : CallSite} (hstandard : site.matcher = .standard)
    (hnodes : site.nodes = #[.vacant 0]) :
    ((newSite site).run s).2.Uncalled ((newSite site).run s).1 := by
  have hsite : ((newSite site).run s).2.site ((newSite site).run s).1 = site :=
    (Array.getD_push s.sites site s.sites.size).trans (if_pos rfl)
  refine ⟨?_, (congrArg CallSite.matcher hsite).trans hstandard,
    (congrArg CallSite.nodes hsite).trans hnodes, h⟩
  exact Nat.lt_of_lt_of_eq (Nat.lt_succ_self _) (Array.size_push site).symm

end Store

namespace EvalM

variable {σ α β : Type} {i : SiteId}

/-- Evaluation that leaves a site and the functions alone, however it ends. -/
def LeavesSite (i : SiteId) (act : EvalM σ α) : Prop :=
  ∀ m : Machine σ, m.store.Meanwhile i (act.run.run m).2.store

namespace LeavesSite

theorem bind {act : EvalM σ β} {f : β → EvalM σ α} (h : LeavesSite i act)
    (hf : ∀ b, LeavesSite i (f b)) : LeavesSite i (act >>= f) :=
  Within.bind (R := Store.Meanwhile i) .trans h hf

theorem store_bind {f : Store → EvalM σ α} (hf : ∀ s, LeavesSite i (f s)) :
    LeavesSite i (EvalM.store >>= f) :=
  fun m => hf m.store m

theorem of_store {act : StoreM α} (h : ∀ s : Store, s.Meanwhile i (act.run s).2) :
    LeavesSite i (onStore act : EvalM σ α) :=
  fun m => h m.store

theorem of_call {act : CallM α} (h : Store.LeavesSite i act) : LeavesSite i (onCall act : EvalM σ α) :=
  fun m => h m.store

end LeavesSite

end EvalM

namespace Chain

variable {σ : Type} {getters : Getters σ} {i j : SiteId} {caller : ActivationId} {c : CallableId}

theorem leavesSite_ofFault {α : Type} (r : Except Fault α) :
    EvalM.LeavesSite i (ofFault r : EvalM σ α) := by
  cases r <;> exact fun m => .refl i m.store

section Elsewhere

variable (h : j ≠ i)

include h

theorem meanwhile_dispatchTarget (id : NodeId) (d : Dispatch) (s : Store) :
    s.Meanwhile i ((dispatchTarget j id d).run s).2 := by
  rw [Store.dispatchTarget_run]
  split
  · rw [Store.dedicatedCopy_run]
    cases (s.callable d.callable).target? with
    | none => exact Store.meanwhile_modifySite s h _
    | some t => exact (Store.meanwhile_copied i s d.callable t).trans (Store.meanwhile_modifySite _ h _)
  · exact .refl i s

theorem leavesSite_runDispatch (id : NodeId) (d : Dispatch) (caller : ActivationId)
    (names : SuppliedNames) (values : List Value) :
    Store.LeavesSite i (runDispatch j id d caller names values) := by
  unfold runDispatch
  refine .get_bind fun s => .bind (fun s => .of_eq rfl rfl rfl) fun bound => ?_
  refine .bind (fun s => meanwhile_dispatchTarget h id d s) fun target => ?_
  exact Store.meanwhile_invoke i _ caller d.callable target bound d.demand

theorem leavesSite_runFixed (id : NodeId) (d : Dispatch) (caller : ActivationId) :
    EvalM.LeavesSite i (runFixed getters j id d caller) := by
  unfold runFixed
  refine .store_bind fun s => .bind (EvalM.Apart.evaluate getters caller _ []).keeps fun values => ?_
  exact .of_call (leavesSite_runDispatch h id d caller _ values)

omit h in
theorem leavesSite_runGeneric (demand : CallerDemand) (caller : ActivationId) (c : CallableId) :
    EvalM.LeavesSite i (runGeneric getters j demand caller c) := by
  unfold runGeneric
  refine .store_bind fun s => .bind (EvalM.Apart.of_result _).keeps fun _ => ?_
  refine .bind (EvalM.Apart.of_result _).keeps fun groups => .bind (EvalM.Apart.hold _).keeps fun _ => ?_
  refine .bind (runMatcher_apart _ c _ _ true).keeps fun matched => ?_
  refine .bind (EvalM.Apart.evaluate getters caller _ _).keeps fun values => .of_call (.get_bind fun _ => ?_)
  refine .bind (fun _ => .of_eq rfl rfl rfl) fun bound => ?_
  exact Store.meanwhile_invoke i _ caller c _ bound demand

omit h in
theorem leavesSite_newDemand (needed : Bool) :
    EvalM.LeavesSite i (EvalM.onStore (Store.newDemand needed) : EvalM σ CallerDemand) :=
  .of_store fun _ => .of_eq rfl rfl rfl

theorem leavesSite_setNode (id : NodeId) (n : Node) :
    EvalM.LeavesSite i (EvalM.onStore (modify (setNode · j id n)) : EvalM σ Unit) :=
  .of_store fun s => Store.meanwhile_modifySite s h _

theorem leavesSite_runLastly (id : NodeId) (final : CallerDemand → Node) (caller : ActivationId)
    (c : CallableId) : EvalM.LeavesSite i (runLastly getters j id final caller c) := by
  unfold runLastly
  refine .bind (leavesSite_newDemand false) fun demand => .bind (leavesSite_setNode h id _) fun _ => ?_
  exact leavesSite_runGeneric demand caller c

theorem leavesSite_growShapes (id : NodeId) (depth : Nat) (signature : SuppliedNames)
    (entries : List (List GroupEntry)) (caller : ActivationId) (c : CallableId) :
    EvalM.LeavesSite i (growShapes getters j id depth signature entries caller c) := by
  unfold growShapes
  refine .store_bind fun s => ?_
  dsimp only
  split
  · exact leavesSite_runLastly h id _ caller c
  · refine .bind (runMatcher_apart _ c _ _ false).keeps fun matched => ?_
    refine .bind (.of_store fun s => ?_) fun next => ?_
    · split
      · exact Store.meanwhile_modifySite s h _
      · have hdemand : s.Meanwhile i (demanding s false) := .of_eq rfl rfl rfl
        exact hdemand.trans (Store.meanwhile_modifySite _ h _)
    · refine .bind (.of_store fun s => .of_eq rfl rfl rfl) fun d => ?_
      refine .bind (leavesSite_setNode h id _) fun _ => ?_
      refine .bind (EvalM.Apart.evaluate getters caller _ _).keeps fun values => ?_
      exact .of_call (leavesSite_runDispatch h id d caller signature values)

theorem leavesSite_runVariadic (start : NodeId) (caller : ActivationId) (c : CallableId) :
    EvalM.LeavesSite i (runVariadic getters j start caller c) := by
  unfold runVariadic
  refine .store_bind fun s => .bind (EvalM.Apart.of_result _).keeps fun groups => ?_
  refine .bind (EvalM.Apart.hold _).keeps fun _ => .bind (leavesSite_ofFault _) fun found => ?_
  rcases found with ⟨id, n⟩
  cases n with
  | variadicCase names d next =>
      refine .bind (EvalM.Apart.evaluate getters caller _ _).keeps fun values => ?_
      exact .of_call (leavesSite_runDispatch h id d caller _ values)
  | variadicVacant depth => exact leavesSite_growShapes h id depth _ _ caller c
  | variadicGeneric demand => exact leavesSite_runGeneric demand caller c
  | _ => exact fun m => .refl i m.store

theorem leavesSite_linkTo (id : NodeId) (depth limit : Nat) (caller : ActivationId) (c : CallableId)
    (handler : Node) : EvalM.LeavesSite i (linkTo getters j id depth limit caller c handler) := by
  have hadd : ∀ tail (s : Store), s.Meanwhile i ((do
      let handlerId ← addNode j handler
      let next ← addNode j tail
      return (handlerId, next) : StoreM (NodeId × NodeId)).run s).2 := fun tail s =>
    (Store.meanwhile_modifySite s h _).trans (Store.meanwhile_modifySite _ h _)
  unfold linkTo
  refine .bind (.of_store fun s => ?_) fun ends => ?_
  · split
    · exact hadd _ s
    · have hdemand : s.Meanwhile i (demanding s false) := .of_eq rfl rfl rfl
      exact hdemand.trans (hadd _ _)
  · refine .bind (leavesSite_setNode h id _) fun _ => ?_
    cases handler with
    | fixed d => exact leavesSite_runFixed h _ d caller
    | _ => exact leavesSite_runVariadic h _ caller c

theorem leavesSite_specialize (id : NodeId) (depth : Nat) (caller : ActivationId) (c : CallableId) :
    EvalM.LeavesSite i (specialize getters j id depth caller c) := by
  rw [specialize_eq]
  refine .store_bind fun s => .bind (EvalM.Apart.of_result _).keeps fun _ => ?_
  dsimp only
  split
  · exact leavesSite_runLastly h id _ caller c
  · split
    · rw [pure_bind]
      exact leavesSite_linkTo h id depth _ caller c _
    · refine .bind (runMatcher_apart _ c _ _ false).keeps fun matched => ?_
      refine .bind (fun m => ?_) fun handler => ?_
      · rw [newFixed_run]
        exact .of_eq rfl rfl rfl
      exact leavesSite_linkTo h id depth _ caller c handler

/-- **Calls through another site leave a site alone**, and make no more than copies of functions. -/
theorem leavesSite_execute (getters : Getters σ) (caller : ActivationId) (c : CallableId) :
    EvalM.LeavesSite i (execute getters j caller c) := by
  unfold execute
  refine .store_bind fun s => .bind (leavesSite_ofFault _) fun found => ?_
  rcases found with ⟨id, n⟩
  cases n with
  | vacant depth => exact leavesSite_specialize h id depth caller c
  | fixed d => exact leavesSite_runFixed h id d caller
  | generic demand => exact leavesSite_runGeneric demand caller c
  | variadicGeneric demand => exact leavesSite_runGeneric demand caller c
  | variadicVacant depth => exact leavesSite_runVariadic h id caller c
  | variadicCase names d next => exact leavesSite_runVariadic h id caller c
  | link c' handler next => exact fun m => .refl i m.store

end Elsewhere

/-! ## Runs -/

/-- What may happen between two moments of a program, seen from a call site: a call through it, of any
    function from any activation, whether it fails or not; or anything that leaves the site and the functions
    alone. A call that a callee makes while it runs is one that comes later. -/
inductive CallStep (i : SiteId) : Machine σ → Machine σ → Prop
  | call (getters : Getters σ) (caller : ActivationId) {c : CallableId} {m : Machine σ}
      (hc : m.store.InHand c) : CallStep i m ((execute getters i caller c).run.run m).2
  | meanwhile {m m' : Machine σ} (h : m.store.Meanwhile i m'.store) : CallStep i m m'

/-- The nodes of a site that has not been called through are in order: there is only the end of the chain,
    and it is made for no function. -/
theorem serves_of_uncalled {s : Store} (h : s.Uncalled i) : s.Serves i := by
  refine ⟨fun _ => none, h.site, h.standard, h.bodies, ⟨?_, rfl⟩, fun _ _ hk => absurd rfl hk, ?_⟩
  · rw [h.nodes]
    exact Nat.one_pos
  · intro k n hn
    rw [h.nodes] at hn
    rcases k with _ | k
    · obtain rfl := Option.some.inj hn
      exact rfl
    · simp at hn

/-- **Each step leaves the nodes in order.** -/
theorem CallStep.serves (h : CallStep i m m') (hs : m.store.Serves i) : m'.store.Serves i := by
  obtain ⟨owner, hs⟩ := hs
  cases h with
  | call getters caller hc => exact (transparent_of_served getters caller hc hs).serves
  | meanwhile h => exact ⟨owner, hs.meanwhile h⟩

/-- **The nodes are in order whenever a call starts**, whatever has happened before. -/
theorem serves_of_run {m₀ : Machine σ} (h : m₀.store.Uncalled i)
    (hrun : Relation.ReflTransGen (CallStep i) m₀ m) : m.store.Serves i := by
  induction hrun with
  | refl => exact serves_of_uncalled h
  | tail _ hstep ih => exact hstep.serves ih

/-! ## Transparency -/

/-- **Caching at a call site is transparent.** However a site with the standard rules of matching has been
    called through before, a call through its cache and one that matches anew gather the same. If gathering
    fails, both end in its error, and no callee gets control; otherwise both give control to the same function,
    from the same caller and with the same values. The machines where they do so differ in nothing but what
    calls keep to themselves: so the same arguments have been evaluated, in the same order, whatever that did
    to names and to the embedding program. Only the copy of the body and the demand for the caller are the
    cache's own. -/
theorem execute_transparent {m₀ : Machine σ} (h : m₀.store.Uncalled i)
    (hrun : Relation.ReflTransGen (CallStep i) m₀ m) (hc : m.store.InHand c) (getters : Getters σ)
    (caller : ActivationId) :
    match (gather getters i caller c).run.run m with
    | (.error e, m₁) =>
        (∀ demand, (runGeneric getters i demand caller c).run.run m = (.error e, m₁))
          ∧ ∃ m₂, m₁.Alike i m₂ ∧ (execute getters i caller c).run.run m = (.error e, m₂)
    | (.ok bound, m₁) =>
        (∀ demand, (runGeneric getters i demand caller c).run.run m
          = (EvalM.onCall (Store.invoke (m.store.site i).maxDepth caller c (m₁.store.callable c).target?
              bound demand)).run.run m₁)
          ∧ ∃ m₂ target demand, m₁.Alike i m₂
            ∧ target.map m₂.store.bodyOf = (m₁.store.callable c).target?.map m₁.store.bodyOf
            ∧ (execute getters i caller c).run.run m
              = (EvalM.onCall (Store.invoke (m.store.site i).maxDepth caller c target bound
                  demand)).run.run m₂ := by
  obtain ⟨owner, hs⟩ := serves_of_run h hrun
  have htransparent := transparent_of_served getters caller hc hs
  have hanew := fun demand => runGeneric_run (i := i) getters demand caller c m
  unfold Transparent at htransparent
  generalize (gather getters i caller c).run.run m = gathered at htransparent hanew ⊢
  generalize (execute getters i caller c).run.run m = result at htransparent ⊢
  rcases gathered with ⟨e | bound, m₁⟩
  · obtain ⟨herror, halike, -⟩ := htransparent
    exact ⟨hanew, result.2, halike, Prod.ext herror rfl⟩
  · obtain ⟨target, demand, m₂, halike, -, hbody, hresult⟩ := htransparent
    exact ⟨hanew, m₂, target, demand, halike, hbody, hresult⟩

/-- A store with a function of two formals, and a site that calls it with one argument named. -/
def oneSite : Store :=
  { Store.new ["f", "x", "y"] with
    callables := #[{ name := ⟨2⟩, label := "f", formals := [{ name := ⟨3⟩ }, { name := ⟨4⟩ }]
                     wantsCaller := false, wantsDedicatedCopy := false, kind := .intrinsic ⟨0⟩ }]
    sites := #[{ callee := .value (.function ⟨0⟩)
                 args := [{ expr := .const (.int 1) }, { name := some ⟨3⟩, expr := .const (.int 2) }] }]
    handles := [.callable ⟨0⟩] }

/-- Every active binding is zero. -/
def zeroGetters : Getters Unit := fun _ => pure (.int 0)

/-- The site has been called through once. -/
def calledOnce : Machine Unit := ((execute zeroGetters ⟨0⟩ ⟨0⟩ ⟨0⟩).run.run ⟨oneSite, ()⟩).2

theorem oneSite_uncalled : oneSite.Uncalled ⟨0⟩ := by
  refine ⟨by decide, rfl, rfl, fun c t ht => ?_⟩
  have hnone : (oneSite.callable c).target? = none := by
    rcases c with ⟨_ | k⟩ <;> rfl
  rw [hnone] at ht
  cases ht

/-- A site that is called through a second time: the link that the first call has left leads to the values
    that a match made anew gives. -/
theorem transparent_of_repeated : oneSite.Uncalled ⟨0⟩
    ∧ (calledOnce.store.site ⟨0⟩).nodes[0]? = some (.link ⟨0⟩ ⟨1⟩ ⟨2⟩) ∧ calledOnce.store.InHand ⟨0⟩
    ∧ ∃ m₁ m₂ target demand, m₁.Alike ⟨0⟩ m₂
      ∧ (gather zeroGetters ⟨0⟩ ⟨0⟩ ⟨0⟩).run.run calledOnce = (.ok [some (.int 2), some (.int 1)], m₁)
      ∧ (execute zeroGetters ⟨0⟩ ⟨0⟩ ⟨0⟩).run.run calledOnce
        = (EvalM.onCall (Store.invoke defaultMaxDepth ⟨0⟩ ⟨0⟩ target [some (.int 2), some (.int 1)]
            demand)).run.run m₂ := by
  have hheld₀ : oneSite.InHand ⟨0⟩ := ⟨by decide, by decide⟩
  have hheld : calledOnce.store.InHand ⟨0⟩ := ⟨by decide +kernel, by decide +kernel⟩
  have hrun : Relation.ReflTransGen (CallStep ⟨0⟩) (⟨oneSite, ()⟩ : Machine Unit) calledOnce :=
    .single (.call zeroGetters ⟨0⟩ hheld₀)
  refine ⟨oneSite_uncalled, by decide +kernel, hheld, ?_⟩
  have htransparent := execute_transparent oneSite_uncalled hrun hheld zeroGetters ⟨0⟩
  have hgather : ((gather zeroGetters ⟨0⟩ ⟨0⟩ ⟨0⟩).run.run calledOnce).1
      = .ok [some (.int 2), some (.int 1)] := by
    decide +kernel
  have hdepth : (calledOnce.store.site ⟨0⟩).maxDepth = defaultMaxDepth := by decide +kernel
  generalize (gather zeroGetters ⟨0⟩ ⟨0⟩ ⟨0⟩).run.run calledOnce = gathered at htransparent hgather ⊢
  rcases gathered with ⟨r, m₁⟩
  obtain rfl : r = _ := hgather
  obtain ⟨-, m₂, target, demand, halike, -, hresult⟩ := htransparent
  rw [hdepth] at hresult
  exact ⟨m₁, m₂, target, demand, halike, rfl, hresult⟩

end Chain

end ScopeCall
