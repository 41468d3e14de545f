import ScopeCall.Proofs.Installing
import ScopeCall.Proofs.Recalling

/-!
# `ScopeCall.Proofs.Accounting` — what the calls of a program have come to

A program calls through its sites, callees ask for their callers, and bodies come to their ends; in between,
functions and call sites are made, and scopes are worked on, inside bodies and outside. An account of a run says
which calls of closures have come to the body of their callee and which of these are still in progress, through
which nodes calls have been run, and where a callee has asked for its caller by a handle that had not been upgraded.
A call has been run through a node once its preparation has taken the node, whether or not its callee then gets
control: it may be refused for its depth.

## Contents
- **Control.** `Chain.Gains`: what becomes of a prepared call.
- **Functions and call sites.** How they are made.
- **Accounts.** `Account`, and what a call and a request add to it.
- **One call.** `Account.Called`: what a call does to the account, stage by stage.
- **Steps.** `Account.Step` and `Account.Run`.
-/

namespace ScopeCall

namespace Store

variable {s s₁ : Store}

/-! ## Control -/

theorem keepsCalls_bindArguments (s : Store) (a : ActivationId) (args : List (Formal × Option Value)) :
    s.KeepsCalls ((bindArguments a args).run.run s).2 := by
  induction args generalizing s with
  | nil => exact .refl s
  | cons arg rest ih =>
      rcases arg with ⟨f, _ | v⟩
      · exact ih s
      · have hbind := keepsCalls_bindName s a f.name v false
        rw [bindArguments_cons_run]
        generalize (bindName a f.name v false).run.run s = result at hbind ⊢
        rcases result with ⟨fault | _, s₁⟩
        · exact hbind
        · exact hbind.trans (ih s₁)

end Store

namespace Chain

/-- What becomes of a prepared call: it is refused, or a body is entered. Nothing that concerns calls changes, but
    that the body of a closure counts its calls. -/
inductive Gains (p : Prepared) (caller : ActivationId) (s : Store) : Except EvalError Entry × Store → Prop
  | refused {e : EvalError} {s' : Store} (h : s.KeepsCalls s') : Gains p caller s (.error e, s')
  | intrinsic {body : BodyId} {call : IntrinsicCall} {s' : Store} (h : s.KeepsCalls s') :
      Gains p caller s (.ok (.intrinsic body call), s')
  | closure {l : LayoutId} {e : ActivationId} {shared : TargetId} {inv : Invocation} {s' : Store}
      (h : s.KeepsCalls s') (hkind : (s.callable p.callable).kind = .closure l e shared)
      (hc : inv.callable = p.callable)
      (hcaller : inv.caller = if (s.callable p.callable).wantsCaller then .materialized caller
        else s.handleFor p.demand caller) :
      Gains p caller s (.ok (.closure (p.target.getD shared) inv),
        s'.modifyTarget (p.target.getD shared) fun t => { t with calls := t.calls + 1 })

theorem enter_gains (p : Prepared) (caller : ActivationId) (s : Store) :
    Gains p caller s ((p.enter caller).run.run s) := by
  have hheld := Store.KeepsCalls.hold s (Store.callRefs p.callable p.args)
  unfold Prepared.enter
  cases hkind : (s.callable p.callable).kind with
  | intrinsic body =>
      rw [Store.invoke_intrinsic_run hkind]
      exact .intrinsic hheld
  | closure l e shared =>
      rw [Store.invoke_closure_run hkind]
      split
      · exact .refused hheld
      · have hscope := hheld.trans (Store.keepsCalls_newScope _ l (some e) (s.calleeDepth caller))
        generalize (Store.newScope l (some e) (s.calleeDepth caller)).run.run
          (s.hold (Store.callRefs p.callable p.args)) = result at hscope ⊢
        rcases result with ⟨fault | a, s₁⟩
        · exact .refused hscope
        · have hbound := (hscope.trans (.hold s₁ [.activation a])).trans (Store.keepsCalls_bindArguments _ a
            ((s.callable p.callable).formals.zip p.args))
          dsimp only
          generalize (Store.bindArguments a ((s.callable p.callable).formals.zip p.args)).run.run
            (s₁.hold [.activation a]) = result at hbound ⊢
          rcases result with ⟨fault | _, s₂⟩
          · exact .refused hbound
          · refine .closure hbound hkind rfl ?_
            -- Entering the scope and binding the arguments leaves the demand as it was.
            have hhandle : s₂.handleFor p.demand caller = s.handleFor p.demand caller := by
              unfold Store.handleFor Store.demandNeeded Store.demand
              rw [hbound.demands]
            dsimp only
            rw [hhandle]

end Chain

namespace Store

variable {s s₁ : Store}

/-! ## Functions and call sites -/

/-- What the rest of a program may do: it leaves functions, bodies and demands alone, and call sites but for new
    ones, which have not been called through. -/
structure Foreign (s s' : Store) : Prop where
  callables : s'.callables = s.callables
  targets : s'.targets = s.targets
  demands : s'.demands = s.demands
  kept : ∀ i, s.Allocated (.site i) → s'.Allocated (.site i) ∧ (s'.site i).nodes = (s.site i).nodes
  made : ∀ i, s'.Allocated (.site i) → s.Allocated (.site i) ∨ s'.Unused i

theorem Foreign.aloof (h : s.Foreign s₁) : s.Aloof s₁ where
  runs i id n demand := by
    constructor
    · intro hruns
      rcases h.made i hruns.allocated with hi | hunused
      · exact ⟨(h.kept i hi).2 ▸ hruns.node, hruns.demand⟩
      · exact absurd hruns (not_runs_of_nodes hunused.nodes id n demand)
    · intro hruns
      exact ⟨(h.kept i hruns.allocated).2.symm ▸ hruns.node, hruns.demand⟩
  callables := h.callables
  targets := h.targets
  demands := h.demands

/-- A call site may be made at any time. -/
theorem foreign_newSite (s : Store) {site : CallSite} (hvacant : site.nodes = #[.vacant 0]) :
    s.Foreign ((newSite site).run s).2 where
  callables := rfl
  targets := rfl
  demands := rfl
  kept i hi := by
    have hsize : (s.sites.push site).size = s.sites.size + 1 := Array.size_push site
    refine ⟨Nat.lt_of_lt_of_eq (Nat.lt_succ_of_lt hi) hsize.symm, congrArg CallSite.nodes ?_⟩
    exact (Array.getD_push s.sites site i.index).trans (if_neg (Nat.ne_of_lt hi))
  made i hi := by
    by_cases hold : s.Allocated (.site i)
    · exact Or.inl hold
    · refine Or.inr ⟨hi, Eq.trans (congrArg CallSite.nodes ?_) hvacant⟩
      have hlast : i.index < s.sites.size + 1 := Nat.lt_of_lt_of_eq hi (Array.size_push site)
      exact (Array.getD_push s.sites site i.index).trans
        (if_pos (Nat.le_antisymm (Nat.le_of_lt_succ hlast) (Nat.not_lt.1 hold)))

theorem keepsCalls_slotted (s : Store) (l : LayoutId) (fs : List Formal) : s.KeepsCalls (s.slotted l fs) := by
  induction fs generalizing s with
  | nil => exact .refl s
  | cons f fs ih => exact (keepsCalls_findOrAddSlot s l f.name).trans (ih _)

theorem keepsCalls_enclosed (s : Store) (spec : CallableSpec) (e : ActivationId) :
    s.KeepsCalls (s.enclosed spec e) := by
  have hlinked : s.KeepsCalls (((newLayout (spec.label.getD CallableSpec.anonymous) .function {}).run s).2.linked
      ⟨s.layouts.size⟩ (s.layoutOf e)) := .of_eq rfl rfl rfl rfl rfl rfl
  exact hlinked.trans (keepsCalls_slotted _ _ spec.formals)

end Store

/-! ## Accounts -/

/-- A call of a closure that has come to the body of its callee. -/
structure Service where
  site : SiteId
  /-- The node that the call has been run through. -/
  node : NodeId
  caller : ActivationId
  target : TargetId
  invocation : Invocation
deriving DecidableEq

/-- The body that has been entered. -/
def Service.entry (sv : Service) : Entry := .closure sv.target sv.invocation

/-- The objects of a program, and what its calls have come to, latest first. -/
structure Account where
  store : Store
  /-- Calls of closures whose bodies have not come to their ends. -/
  running : List Service
  /-- All calls of closures that have come to the body of their callee. -/
  served : List Service
  /-- The nodes that calls have been run through. -/
  ran : List (SiteId × NodeId)
  /-- The nodes of the calls whose callees have asked for their callers by elided handles. -/
  asked : List (SiteId × NodeId)

namespace Account

open Chain

variable {σ : Type} {a a' : Account} {names : List String} {getters : Getters σ} {host : σ} {i : SiteId}
  {caller : ActivationId} {callee : Option CallableId}

/-- A program that has not run. -/
def new (names : List String) : Account := ⟨.new names, [], [], [], []⟩

/-- A call through a site, up to the body of its callee. -/
def call (a : Account) (getters : Getters σ) (host : σ) (i : SiteId) (caller : ActivationId)
    (callee : Option CallableId) : Account :=
  match (calleeVia getters i caller callee).run.run ⟨a.store, host⟩ with
  | (.error _, m) => { a with store := m.store }
  | (.ok c, m) =>
    match (prepare getters i caller c).run.run m with
    | (.error _, m₁) => { a with store := m₁.store }
    | (.ok p, m₁) =>
      let id := nodeFor (m₁.store.site i).nodes c (suppliedNames m.store i caller)
      match (p.enter caller).run.run m₁.store with
      | (.ok (.closure target inv), s) =>
        { store := s
          running := ⟨i, id, caller, target, inv⟩ :: a.running
          served := ⟨i, id, caller, target, inv⟩ :: a.served
          ran := (i, id) :: a.ran
          asked := a.asked }
      | (_, s) => { a with store := s, ran := (i, id) :: a.ran }

/-- **An account of a call leaves what the call leaves**, and has one more body entered just when the call comes to
    one, the same. -/
theorem call_callVia (a : Account) (getters : Getters σ) (host : σ) (i : SiteId) (caller : ActivationId)
    (callee : Option CallableId) :
    let result := (callVia getters i caller callee).run.run ⟨a.store, host⟩
    (a.call getters host i caller callee).store = result.2.store
      ∧ (a.call getters host i caller callee).served.map Service.entry
        = result.1.toOption.toList.filter Entry.isClosure ++ a.served.map Service.entry := by
  have hvia : prepareVia getters i caller callee = calleeVia getters i caller callee >>= prepare getters i caller := by
    cases callee <;> rfl
  dsimp only
  rw [callVia_eq, thenEnter, EvalM.run_bind, hvia, EvalM.run_bind]
  unfold call
  rcases (calleeVia getters i caller callee).run.run ⟨a.store, host⟩ with ⟨e | c, m⟩
  · exact ⟨rfl, rfl⟩
  dsimp only
  rcases (prepare getters i caller c).run.run m with ⟨e | p, m₁⟩
  · exact ⟨rfl, rfl⟩
  dsimp only
  rw [EvalM.run_onCall]
  rcases (p.enter caller).run.run m₁.store with ⟨e | (⟨target, inv⟩ | ⟨body, call⟩), s⟩ <;> exact ⟨rfl, rfl⟩

/-- The callee of a call asks for its caller. -/
def ask (a : Account) (sv : Service) : Account :=
  { a with
    store := ((Store.callerOf sv.invocation.caller).run a.store).2
    asked := if sv.invocation.caller.isMaterialized then a.asked else (sv.site, sv.node) :: a.asked }

/-! ## One call -/

/-- What a call does to the account, stage by stage: its callee is evaluated, its preparation fails or takes a
    node, and then it is refused, or a body is entered. -/
inductive Called (i : SiteId) (caller : ActivationId) (a : Account) : Account → Prop
  | failed {c : CallableId} {s : Store} (hc : a.store.Allocated (.callable c)) (h : a.store.Furthers c s) :
      Called i caller a { a with store := s }
  | idle {s : Store} (h : a.store.KeepsCalls s) : Called i caller a { a with store := s }
  | ran {c : CallableId} {s₁ s₂ s : Store} {p : Prepared} {id : NodeId} (hc : a.store.Allocated (.callable c))
      (h : a.store.Furthers c s₁) (ht : Takes i id p s₁ s₂) (hs : s₂.KeepsCalls s) :
      Called i caller a { a with store := s, ran := (i, id) :: a.ran }
  | entered {c : CallableId} {s₁ s₂ s : Store} {p : Prepared} {id : NodeId} {l : LayoutId} {e : ActivationId}
      {shared : TargetId} {inv : Invocation} (hc : a.store.Allocated (.callable c)) (h : a.store.Furthers c s₁)
      (ht : Takes i id p s₁ s₂) (hs : s₂.KeepsCalls s)
      (hkind : (s₂.callable p.callable).kind = .closure l e shared) (hcallable : inv.callable = p.callable)
      (hcaller : inv.caller = if (s₂.callable p.callable).wantsCaller then .materialized caller
        else s₂.handleFor p.demand caller) :
      Called i caller a
        { store := s.modifyTarget (p.target.getD shared) fun t => { t with calls := t.calls + 1 }
          running := ⟨i, id, caller, p.target.getD shared, inv⟩ :: a.running
          served := ⟨i, id, caller, p.target.getD shared, inv⟩ :: a.served
          ran := (i, id) :: a.ran
          asked := a.asked }

theorem keepsCalls_calleeVia (getters : Getters σ) (i : SiteId) (caller : ActivationId)
    (callee : Option CallableId) : EvalM.Within Store.KeepsCalls (calleeVia getters i caller callee) := by
  have hsteady := Store.steady_keepsCalls getters
  cases callee with
  | none => exact calleeOf_within hsteady i caller
  | some c => exact hsteady.of_pure c

/-- **Every call of a function that exists is done in such stages.** -/
theorem call_called (a : Account) (getters : Getters σ) (host : σ) {i : SiteId} (caller : ActivationId)
    (callee : Option CallableId) (hi : a.store.Allocated (.site i))
    (hcallee : ∀ c, ((calleeVia getters i caller callee).run.run ⟨a.store, host⟩).1 = .ok c →
      a.store.Allocated (.callable c)) :
    Called i caller a (a.call getters host i caller callee) := by
  have hevaluated := keepsCalls_calleeVia getters i caller callee ⟨a.store, host⟩
  unfold call
  generalize (calleeVia getters i caller callee).run.run ⟨a.store, host⟩ = result at hevaluated hcallee ⊢
  rcases result with ⟨e | c, m⟩
  · exact .idle hevaluated
  have hc := hcallee c rfl
  have hlands := prepare_lands (allocated_of_keepsCalls hevaluated hi) getters caller c
  dsimp only at hevaluated ⊢
  generalize (prepare getters i caller c).run.run m = result at hlands ⊢
  rcases result with ⟨e | p, m₁⟩
  · exact .failed hc (hevaluated.furthers.trans hlands)
  obtain ⟨s₁, hfurthers, htakes⟩ := hlands
  have hgains := enter_gains p caller m₁.store
  dsimp only
  generalize (p.enter caller).run.run m₁.store = result at hgains ⊢
  cases hgains with
  | refused hs => exact .ran hc (hevaluated.furthers.trans hfurthers) htakes hs
  | intrinsic hs => exact .ran hc (hevaluated.furthers.trans hfurthers) htakes hs
  | closure hs hkind hcallable hcaller =>
      exact .entered hc (hevaluated.furthers.trans hfurthers) htakes hs hkind hcallable hcaller

/-! ## Steps -/

/-- A step of a program: a call of a function that exists, through a site and from a scope that the program holds; a
    request of a callee for its caller, during its call or later; the end of a body; an operation on scopes; the
    making of a function; or something else, which does not let go of the callers of calls in progress. -/
inductive Step (a : Account) : Account → Prop
  | call {σ : Type} (getters : Getters σ) (host : σ) {i : SiteId} {caller : ActivationId}
      (callee : Option CallableId) (hi : a.store.Allocated (.site i)) (hheld : .activation caller ∈ a.store.roots)
      (hcallee : ∀ c, ((calleeVia getters i caller callee).run.run ⟨a.store, host⟩).1 = .ok c →
        a.store.Allocated (.callable c)) : Step a (a.call getters host i caller callee)
  | ask {sv : Service} (h : sv ∈ a.served) : Step a (a.ask sv)
  | leave {sv : Service} {rest : List Service} (h : a.running = sv :: rest) : Step a { a with running := rest }
  | operate (op : Store.Operation) : Step a { a with store := op.perform a.store }
  | close (spec : CallableSpec) (enclosing : ActivationId) (body : BodyId) :
      Step a { a with store := ((Store.newClosure spec enclosing body).run.run a.store).2 }
  | closeIntrinsic (spec : CallableSpec) (body : BodyId) :
      Step a { a with store := ((Store.newIntrinsic spec body).run a.store).2 }
  | beyond {s : Store} (h : a.store.Foreign s) (hheld : ∀ sv ∈ a.running, .activation sv.caller ∈ s.roots) :
      Step a { a with store := s }

/-- A run of a program, from one moment to another. -/
abbrev Run : Account → Account → Prop := Relation.ReflTransGen Step

/-- Operations are steps of every program. -/
theorem Run.operations (a : Account) (ops : List Store.Operation) :
    Run a { a with store := ops.foldl Store.Operation.perform a.store } := by
  induction ops generalizing a with
  | nil => exact .refl
  | cons op ops ih => exact .head (.operate op) (ih { a with store := op.perform a.store })

/-- A call of a function that is known to exist is a step, too. -/
theorem Run.call (h : Run a a') (getters : Getters σ) (host : σ) (i : SiteId) (caller : ActivationId)
    (callee : Option CallableId) (c : CallableId) (hready : a'.store.Allocated (.site i)
      ∧ .activation caller ∈ a'.store.roots ∧ a'.store.Allocated (.callable c)
      ∧ ((calleeVia getters i caller callee).run.run ⟨a'.store, host⟩).1 = .ok c) :
    Run a (a'.call getters host i caller callee) := by
  obtain ⟨hi, hheld, hc, hcallee⟩ := hready
  refine h.tail (.call getters host callee hi hheld fun c' hc' => ?_)
  obtain rfl := Except.ok.inj (hcallee.symm.trans hc')
  exact hc

end Account

end ScopeCall
