import ScopeCall.Proofs.Arranging
import ScopeCall.Proofs.Caching

/-!
# `ScopeCall.Proofs.Evolving` — a call changes its site step by step

Whoever matches the arguments of a site, a call through it changes nothing of it but its nodes, and these by
the changes that keep lists in good order. A call whose arguments match adds a link if there is room for one.

## Contents
- **Sites.** `Store.Evolves`.
- **Running.** Calls that are cached, and calls that are matched anew.
- **Growing.** Calls that add a shape or a link.
- **Calls.** `evolves_execute`, and `links_execute`.
-/

namespace ScopeCall

/-! ## Sites -/

namespace Store

variable {s s' s'' : Store} {i : SiteId} {step : Array Node → Array Node → Prop}

/-- A site is what it was but for its nodes, which have changed step by step. -/
structure Evolves (i : SiteId) (step : Array Node → Array Node → Prop) (s s' : Store) : Prop where
  sites : s.sites.size ≤ s'.sites.size
  site : s'.site i = { s.site i with nodes := (s'.site i).nodes }
  nodes : Relation.ReflTransGen step (s.site i).nodes (s'.site i).nodes

theorem Meanwhile.evolves (h : s.Meanwhile i s') : s.Evolves i step s' := by
  refine ⟨h.sites, ?_, ?_⟩
  · rw [h.site]
  · rw [h.site]

namespace Evolves

theorem refl (s : Store) : s.Evolves i step s := (Meanwhile.refl i s).evolves

theorem trans (h : s.Evolves i step s') (h' : s'.Evolves i step s'') : s.Evolves i step s'' where
  sites := h.sites.trans h'.sites
  site := by
    rw [h'.site, h.site]
  nodes := h.nodes.trans h'.nodes

theorem allocated (h : s.Evolves i step s') (hi : s.Allocated (.site i)) : s'.Allocated (.site i) :=
  Nat.lt_of_lt_of_le hi h.sites

theorem setNodes (hi : s.Allocated (.site i)) {nodes : Array Node} (h : step (s.site i).nodes nodes) :
    s.Evolves i step (s.setNodes i nodes) := by
  have hsize : (s.setNodes i nodes).sites.size = s.sites.size := Array.size_modify
  refine ⟨hsize.ge, ?_, ?_⟩
  · rw [site_setNodes hi]
  · rw [site_setNodes hi]
    exact .single h

/-- Nodes are changed after demands have been made. -/
theorem grown (hi : s.Allocated (.site i)) (ds : Array Guard) {nodes : Array Node}
    (h : step (s.site i).nodes nodes) :
    s.Evolves i step (({ s with demands := ds }).setNodes i nodes)
      ∧ (({ s with demands := ds }).setNodes i nodes).site i = { s.site i with nodes } := by
  have hdemands : s.Meanwhile i { s with demands := ds } := .of_eq rfl rfl rfl
  exact ⟨hdemands.evolves.trans (.setNodes (s := { s with demands := ds }) hi h),
    site_setNodes (s := { s with demands := ds }) hi nodes⟩

end Evolves

end Store

namespace EvalM

variable {σ α β : Type} {i : SiteId} {step : Array Node → Array Node → Prop} {m : Machine σ}

/-- What leaves a site alone comes before what changes it. -/
theorem evolves_bind {act : EvalM σ β} {f : β → EvalM σ α} (hact : LeavesSite i act)
    (hf : ∀ b (m₁ : Machine σ), act.run.run m = (.ok b, m₁) → m.store.Meanwhile i m₁.store →
      m₁.store.Evolves i step ((f b).run.run m₁).2.store) :
    m.store.Evolves i step ((act >>= f).run.run m).2.store := by
  have hkeeps := hact m
  rw [run_bind]
  generalize act.run.run m = result at hkeeps hf ⊢
  rcases result with ⟨e | b, m₁⟩
  · exact hkeeps.evolves
  · exact hkeeps.evolves.trans (hf b m₁ rfl hkeeps)

end EvalM

namespace Chain

variable {σ : Type} {getters : Getters σ} {i : SiteId} {caller : ActivationId} {c : CallableId}
  {m : Machine σ} {s : Store} {args : Arguments} {limits : CacheLimits} {fits : Prop}

/-! ## Running -/

theorem evolves_dispatchTarget (hi : s.Allocated (.site i)) {id : NodeId} {n : Node} {d : Dispatch}
    (hn : (s.site i).nodes[id.index]? = some n) (hd : dispatchOf? n = some d) :
    s.Evolves i (NodeStep args limits c fits) ((dispatchTarget i id d).run s).2 := by
  rw [Store.dispatchTarget_run]
  split
  · rw [Store.dedicatedCopy_run]
    cases (s.callable d.callable).target? with
    | none => exact .setNodes hi (.redispatch hn hd rfl)
    | some t =>
        have hcopied := Store.meanwhile_copied i s d.callable t
        have hi' : (s.copied d.callable t).Allocated (.site i) := Nat.lt_of_lt_of_le hi hcopied.sites
        refine hcopied.evolves.trans (.setNodes hi' (.redispatch ?_ hd rfl))
        rw [hcopied.site]
        exact hn
  · exact .refl s

theorem evolves_runDispatch (hi : s.Allocated (.site i)) {id : NodeId} {n : Node} {d : Dispatch}
    (hn : (s.site i).nodes[id.index]? = some n) (hd : dispatchOf? n = some d) (caller : ActivationId)
    (names : SuppliedNames) (values : List Value) :
    s.Evolves i (NodeStep args limits c fits) ((runDispatch i id d caller names values).run.run s).2 := by
  let bound := (Store.onHeap (d.matched.bind (s.callable d.callable).formals names values)).run s
  have hheap : s.Meanwhile i bound.2 := .of_eq rfl rfl rfl
  have hrun : (runDispatch i id d caller names values).run.run s
      = (Store.invoke (s.site i).maxDepth caller d.callable ((dispatchTarget i id d).run bound.2).1
          bound.1 d.demand).run.run ((dispatchTarget i id d).run bound.2).2 := rfl
  rw [hrun]
  have htarget : bound.2.Evolves i (NodeStep args limits c fits) ((dispatchTarget i id d).run bound.2).2 :=
    evolves_dispatchTarget (s := bound.2) hi hn hd
  exact hheap.evolves.trans (htarget.trans
    (Store.meanwhile_invoke i _ caller d.callable _ _ d.demand _).evolves)

/-- Evaluating arguments and then running a cached callee. -/
theorem evolves_evaluate_runDispatch (hi : m.store.Allocated (.site i)) {id : NodeId} {n : Node}
    {d : Dispatch} (hn : (m.store.site i).nodes[id.index]? = some n) (hd : dispatchOf? n = some d)
    (caller : ActivationId) (written : Arguments) (entries : List (List GroupEntry))
    (names : SuppliedNames) :
    m.store.Evolves i (NodeStep args limits c fits)
      ((do let values ← Arguments.evaluate getters caller written entries
           EvalM.onCall (runDispatch i id d caller names values) : EvalM σ Entry).run.run m).2.store := by
  refine EvalM.evolves_bind (EvalM.Apart.evaluate getters caller _ _).keeps fun values m₁ _ hkeeps => ?_
  refine evolves_runDispatch (Nat.lt_of_lt_of_le hi hkeeps.sites) ?_ hd caller names values
  rw [hkeeps.site]
  exact hn

theorem evolves_runFixed (hi : m.store.Allocated (.site i)) {id : NodeId} {d : Dispatch}
    (hn : (m.store.site i).nodes[id.index]? = some (.fixed d)) (caller : ActivationId) :
    m.store.Evolves i (NodeStep args limits c fits)
      ((runFixed getters i id d caller).run.run m).2.store := by
  unfold runFixed
  rw [EvalM.run_store_bind]
  exact evolves_evaluate_runDispatch hi hn rfl caller _ _ _

/-- A call that closes a list matches anew. -/
theorem evolves_runLastly (hi : m.store.Allocated (.site i)) {id : NodeId}
    {final : CallerDemand → Node} (hstep : ∀ demand, NodeStep args limits c fits (m.store.site i).nodes
      (Store.extended (m.store.site i).nodes #[] id (final demand))) (caller : ActivationId) :
    m.store.Evolves i (NodeStep args limits c fits)
      ((runLastly getters i id final caller c).run.run m).2.store := by
  have hrun : (runLastly getters i id final caller c).run.run m
      = (runGeneric getters i ⟨m.store.demands.size⟩ caller c).run.run
        ⟨setNode (demanding m.store false) i id (final ⟨m.store.demands.size⟩), m.host⟩ := rfl
  have hset : m.store.Evolves i (NodeStep args limits c fits)
      (setNode (demanding m.store false) i id (final ⟨m.store.demands.size⟩)) := by
    rw [setNode_eq, ← Store.extended_empty]
    exact (Store.Evolves.grown hi _ (hstep _)).1
  rw [hrun]
  have hgeneric : EvalM.LeavesSite i (runGeneric getters i ⟨m.store.demands.size⟩ caller c) :=
    leavesSite_runGeneric _ caller c
  exact hset.trans (hgeneric ⟨setNode _ i id (final _), m.host⟩).evolves

/-! ## Growing -/

theorem evolves_growShapes (hi : m.store.Allocated (.site i))
    (hlimits : (m.store.site i).limits = limits) {start id : NodeId} {depth : Nat}
    {names : SuppliedNames} (hstart : HandledAt (m.store.site i).nodes c start)
    (hfollow : followShapes (m.store.site i).nodes names ((m.store.site i).nodes.size + 1) start
      = .ok (id, .variadicVacant depth)) (entries : List (List GroupEntry)) (caller : ActivationId) :
    m.store.Evolves i (NodeStep args limits c fits)
      ((growShapes getters i id depth names entries caller c).run.run m).2.store := by
  rw [growShapes_eq, EvalM.run_store_bind]
  dsimp only
  rw [hlimits]
  by_cases hdepth : depth ≥ limits.variadicDepth
  · rw [if_pos hdepth]
    exact evolves_runLastly hi (fun demand => .closeShapes demand hstart hfollow hdepth) caller
  rw [if_neg hdepth]
  refine EvalM.evolves_bind (runMatcher_apart _ c _ _ false).keeps fun matched m₁ _ hkeeps => ?_
  have hi₁ : m₁.store.Allocated (.site i) := Nat.lt_of_lt_of_le hi hkeeps.sites
  -- The shape is added before the arguments are evaluated, so the node that runs is there already.
  obtain ⟨ds, s₁, last, hlast, hrun⟩ := shapeTo_run getters caller c hi₁ id depth
    limits.variadicDepth names (m.store.site i).args entries matched
  have hstep : NodeStep args limits c fits (m₁.store.site i).nodes (Store.extended (m₁.store.site i).nodes
      #[last] id (.variadicCase names (freshDispatch s₁ c matched) ⟨(m₁.store.site i).nodes.size⟩)) := by
    rw [hkeeps.site]
    exact .shape hstart hfollow (Nat.lt_of_not_le hdepth) rfl hlast
  have hn : (m₁.store.site i).nodes[id.index]? = some (.variadicVacant depth) := by
    rw [hkeeps.site]
    exact node_of_followShapes hfollow
  obtain ⟨hgrown, hsite⟩ := Store.Evolves.grown hi₁ ds hstep
  rw [hrun]
  generalize Store.setNodes _ i _ = s₂ at hgrown hsite ⊢
  have hn₂ : (s₂.site i).nodes[id.index]?
      = some (.variadicCase names (freshDispatch s₁ c matched) ⟨(m₁.store.site i).nodes.size⟩) := by
    rw [hsite]
    exact extended_self hn
  exact hgrown.trans (evolves_evaluate_runDispatch (m := ⟨s₂, m₁.host⟩) (hgrown.allocated hi₁) hn₂ rfl
    caller _ entries names)

theorem evolves_runVariadic (hi : m.store.Allocated (.site i))
    (hlimits : (m.store.site i).limits = limits) {start : NodeId}
    (hstart : HandledAt (m.store.site i).nodes c start) (caller : ActivationId) :
    m.store.Evolves i (NodeStep args limits c fits)
      ((runVariadic getters i start caller c).run.run m).2.store := by
  unfold runVariadic
  rw [EvalM.run_store_bind]
  dsimp only
  rw [EvalM.run_ofExcept_bind]
  cases Arguments.readGroups (m.store.site i).args m.store caller with
  | error e => exact .refl m.store
  | ok groups =>
      dsimp only
      refine EvalM.evolves_bind (EvalM.Apart.hold _).keeps fun _ m₁ _ hkeeps => ?_
      have hi₁ : m₁.store.Allocated (.site i) := Nat.lt_of_lt_of_le hi hkeeps.sites
      generalize Arguments.flattenedNames _ _ = names
      rw [← hkeeps.site] at hlimits hstart ⊢
      cases hfollow : followShapes (m₁.store.site i).nodes names ((m₁.store.site i).nodes.size + 1) start with
      | error e => exact .refl m₁.store
      | ok found =>
          obtain ⟨id, n⟩ := found
          rw [run_ofFault_bind]
          have hn := node_of_followShapes hfollow
          cases n with
          | variadicCase cached d next => exact evolves_evaluate_runDispatch hi₁ hn rfl caller _ _ _
          | variadicVacant depth => exact evolves_growShapes hi₁ hlimits hstart hfollow _ caller
          | variadicGeneric demand => exact (leavesSite_runGeneric demand caller c m₁).evolves
          | _ => exact .refl m₁.store

/-- **A link stays**, whatever happens behind it. -/
theorem evolves_linkTo (getters : Getters σ) (hi : m.store.Allocated (.site i))
    (hlimits : (m.store.site i).limits = limits) {id : NodeId} {depth : Nat}
    (hfollow : follow (m.store.site i).nodes c ((m.store.site i).nodes.size + 1) .root
      = .ok (id, .vacant depth)) (hroom : depth < limits.functionDepth) {handler : Node}
    (hhandler : handler.Handles args c fits) (caller : ActivationId) :
    m.store.Evolves i (NodeStep args limits c fits)
        ((linkTo getters i id depth limits.functionDepth caller c handler).run.run m).2.store
      ∧ ∃ handlerId next,
        (((linkTo getters i id depth limits.functionDepth caller c handler).run.run
          m).2.store.site i).nodes[id.index]? = some (.link c handlerId next) := by
  obtain ⟨ds, tail, htail, hrun⟩ :=
    linkTo_nodes getters caller c hi id depth limits.functionDepth handler
  have hold := node_of_follow hfollow
  have hstep : NodeStep args limits c fits (m.store.site i).nodes _ := .link hfollow hroom hhandler htail
  obtain ⟨hgrown, hsite⟩ := Store.Evolves.grown hi ds hstep
  rw [hrun]
  generalize Store.setNodes _ i _ = s₁ at hgrown hsite ⊢
  have hi₁ := hgrown.allocated hi
  have hlink : (s₁.site i).nodes[id.index]?
      = some (.link c ⟨(m.store.site i).nodes.size⟩ ⟨(m.store.site i).nodes.size + 1⟩) := by
    rw [hsite]
    exact extended_self hold
  have hthere : (s₁.site i).nodes[(m.store.site i).nodes.size]? = some handler := by
    rw [hsite]
    exact extended_add hold 0
  -- What runs through the handler may change the nodes further, but a link stays a link.
  have hrest : s₁.Evolves i (NodeStep args limits c fits) ((runHandler getters i
      ⟨(m.store.site i).nodes.size⟩ caller c handler).run.run ⟨s₁, m.host⟩).2.store := by
    have hlimits₁ : (s₁.site i).limits = limits := by
      rw [hsite]
      exact hlimits
    cases handler with
    | fixed d => exact evolves_runFixed (m := ⟨s₁, m.host⟩) hi₁ hthere caller
    | variadicVacant depth =>
        exact evolves_runVariadic (m := ⟨s₁, m.host⟩) hi₁ hlimits₁
          (Or.inr ⟨id.index, _, hlink⟩) caller
    | _ => exact hhandler.elim
  refine ⟨hgrown.trans hrest, ?_⟩
  obtain ⟨n, hn, hbecomes⟩ := keeps_of_steps hrest.nodes _ _ hlink
  cases hbecomes
  exact ⟨_, _, hn⟩

/-! ## Calls -/

/-- Whether the arguments of a site without forwards match the formals of a function. -/
def argumentsMatch (s : Store) (i : SiteId) (c : CallableId) : Bool :=
  let site := s.site i
  (Arguments.checkNames site.args).isOk && ((Store.runMatcher site.matcher c
    (Arguments.staticNames site.args) site.source false).run.run s).1.isOk

theorem argumentsMatch_iff : argumentsMatch s i c = true
    ↔ Arguments.checkNames (s.site i).args = .ok () ∧ ∃ matched,
      ((Store.runMatcher (s.site i).matcher c (Arguments.staticNames (s.site i).args) (s.site i).source
        false).run.run s).1 = .ok matched := by
  unfold argumentsMatch
  dsimp only
  rw [Bool.and_eq_true]
  refine and_congr ?_ ?_
  · cases Arguments.checkNames (s.site i).args with
    | error e => exact ⟨fun h => (by cases h), fun h => (by cases h)⟩
    | ok _ => exact ⟨fun _ => rfl, fun _ => rfl⟩
  · cases ((Store.runMatcher (s.site i).matcher c _ (s.site i).source false).run.run s).1 with
    | error e => exact ⟨fun h => (by cases h), fun ⟨_, h⟩ => (by cases h)⟩
    | ok matched => exact ⟨fun _ => ⟨matched, rfl⟩, fun _ => rfl⟩

/-- A call that finds no link adds one, if there is room for it and the arguments match. -/
theorem evolves_specialize (getters : Getters σ) (hi : m.store.Allocated (.site i))
    (hargs : (m.store.site i).args = args) (hlimits : (m.store.site i).limits = limits) {id : NodeId} {depth : Nat}
    (hfollow : follow (m.store.site i).nodes c ((m.store.site i).nodes.size + 1) .root
      = .ok (id, .vacant depth)) (caller : ActivationId) :
    m.store.Evolves i (NodeStep args limits c (argumentsMatch m.store i c = true))
        ((specialize getters i id depth caller c).run.run m).2.store
      ∧ (Arguments.forwardsVariadic args = false → argumentsMatch m.store i c = true →
        depth < limits.functionDepth → ∃ handler next,
          (((specialize getters i id depth caller c).run.run m).2.store.site i).nodes[id.index]?
            = some (.link c handler next)) := by
  have hmatches := argumentsMatch_iff (s := m.store) (i := i) (c := c)
  rw [specialize_eq, EvalM.run_store_bind]
  dsimp only
  rw [EvalM.run_ofExcept_bind]
  cases hchecked : Arguments.checkNames (m.store.site i).args with
  | error e =>
      refine ⟨.refl m.store, fun _ hmatch => ?_⟩
      obtain ⟨hok, -⟩ := hmatches.1 hmatch
      cases hchecked.symm.trans hok
  | ok _ =>
      dsimp only
      rw [hargs, hlimits]
      by_cases hdepth : depth ≥ limits.functionDepth
      · rw [if_pos hdepth]
        refine ⟨evolves_runLastly hi (fun demand => .close demand hfollow hdepth) caller, ?_⟩
        exact fun _ _ hroom => absurd hroom (Nat.not_lt_of_le hdepth)
      rw [if_neg hdepth]
      have hroom : depth < limits.functionDepth := Nat.lt_of_not_le hdepth
      cases hforwards : Arguments.forwardsVariadic args with
      | true =>
          rw [if_pos rfl, pure_bind]
          refine ⟨(evolves_linkTo getters hi hlimits hfollow hroom ?_ caller).1, fun hnone => by cases hnone⟩
          exact ⟨rfl, hforwards⟩
      | false =>
          rw [if_neg Bool.false_ne_true, EvalM.run_bind, EvalM.run_onCall]
          have hkeeps := (runMatcher_apart (σ := σ) (i := i) (m.store.site i).matcher c
            (Arguments.staticNames args) (m.store.site i).source false).keeps m
          rw [EvalM.run_onCall] at hkeeps
          rw [hchecked, hargs] at hmatches
          generalize (Store.runMatcher _ c _ _ false).run.run m.store = result at hkeeps hmatches ⊢
          rcases result with ⟨e | matched, s₁⟩
          · refine ⟨hkeeps.evolves, fun _ hmatch => ?_⟩
            obtain ⟨-, matched, herror⟩ := hmatches.1 hmatch
            cases herror
          · dsimp only at hkeeps ⊢
            rw [EvalM.run_bind, newFixed_run]
            dsimp only
            have hmatch : argumentsMatch m.store i c = true := hmatches.2 ⟨rfl, matched, rfl⟩
            -- Matching and asking for a demand leave the site alone, so the end of the chain is where it was.
            have hdemand : s₁.Meanwhile i (demanding s₁ (s₁.callable c).wantsCaller) := .of_eq rfl rfl rfl
            have hkeeps₁ := hkeeps.trans hdemand
            rw [← hkeeps₁.site] at hlimits hfollow
            generalize demanding s₁ _ = s₂ at hkeeps₁ hlimits hfollow ⊢
            have hhandler : (Node.fixed (freshDispatch s₁ c matched)).Handles args c
                (argumentsMatch m.store i c = true) := ⟨rfl, hforwards, hmatch⟩
            have hlinked := evolves_linkTo (m := ⟨s₂, m.host⟩) getters (Nat.lt_of_lt_of_le hi hkeeps₁.sites)
              hlimits hfollow hroom hhandler caller
            exact ⟨hkeeps₁.evolves.trans hlinked.1, fun _ _ _ => hlinked.2⟩

theorem execute_of_vacant {id : NodeId} {depth : Nat}
    (hfollow : follow (m.store.site i).nodes c ((m.store.site i).nodes.size + 1) .root
      = .ok (id, .vacant depth)) (caller : ActivationId) :
    (execute getters i caller c).run.run m = (specialize getters i id depth caller c).run.run m := by
  unfold execute
  rw [EvalM.run_store_bind]
  dsimp only
  rw [hfollow, run_ofFault_bind]

/-- **A call changes the nodes of its site step by step**, however it ends. -/
theorem evolves_execute (getters : Getters σ) (hi : m.store.Allocated (.site i))
    (hargs : (m.store.site i).args = args) (hlimits : (m.store.site i).limits = limits)
    (caller : ActivationId) (c : CallableId) :
    m.store.Evolves i (NodeStep args limits c (argumentsMatch m.store i c = true))
      ((execute getters i caller c).run.run m).2.store := by
  unfold execute
  rw [EvalM.run_store_bind]
  dsimp only
  cases hfollow : follow (m.store.site i).nodes c ((m.store.site i).nodes.size + 1) .root with
  | error e => exact .refl m.store
  | ok found =>
      obtain ⟨id, n⟩ := found
      rw [run_ofFault_bind]
      have hn := node_of_follow hfollow
      cases n with
      | vacant depth => exact (evolves_specialize getters hi hargs hlimits hfollow caller).1
      | fixed d => exact evolves_runFixed hi hn caller
      | generic demand => exact (leavesSite_runGeneric demand caller c m).evolves
      | variadicGeneric demand => exact (leavesSite_runGeneric demand caller c m).evolves
      | variadicVacant depth => exact evolves_runVariadic hi hlimits (Or.inl ⟨_, hfollow⟩) caller
      | variadicCase names d next => exact evolves_runVariadic hi hlimits (Or.inl ⟨_, hfollow⟩) caller
      | link callee handler next => exact .refl m.store

/-- **A call adds a link** if the arguments match, the function has none, and there is room for one. -/
theorem links_execute (getters : Getters σ) (hi : m.store.Allocated (.site i))
    (hargs : (m.store.site i).args = args) (hlimits : (m.store.site i).limits = limits)
    (caller : ActivationId) (hforwards : Arguments.forwardsVariadic args = false)
    (hmatch : argumentsMatch m.store i c = true) {id : NodeId} {depth : Nat}
    (hfollow : follow (m.store.site i).nodes c ((m.store.site i).nodes.size + 1) .root
      = .ok (id, .vacant depth)) (hroom : depth < limits.functionDepth) :
    ∃ handler next, (((execute getters i caller c).run.run m).2.store.site i).nodes[id.index]?
      = some (.link c handler next) := by
  rw [execute_of_vacant hfollow]
  exact (evolves_specialize getters hi hargs hlimits hfollow caller).2 hforwards hmatch hroom

end Chain

end ScopeCall
