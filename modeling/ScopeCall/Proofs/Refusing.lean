import ScopeCall.Proofs.Chaining

/-!
# `ScopeCall.Proofs.Refusing` — calls whose arguments are refused

A call is refused when its arguments do not match, or when it forwards arguments from where there are none.
The callee does not run then, and the site should be as it was. It is, but for what a call does before it
looks at its arguments: a call that forwards arguments adds its link first, and a list without any room is
closed first.

## Contents
- **Refusals.** `EvalError.refusesCall` and `Refused`; `NeverRefuses`, which everything is that follows a match.
- **Forwarding.** Only a site that forwards arguments has lists of shapes.
- **Shapes.** `ClosesShapesAt`: what a refused call leaves of a list of shapes.
- **Links.** `RefusedChange`: what it leaves of the nodes.
- **What is cached.** `refused_caches`, and in `refused_leaves_link` a link that is left behind.
-/

namespace ScopeCall

/-! ## Refusals -/

/-- The error refuses a call for its arguments: they do not match, or there are none to forward. -/
def EvalError.refusesCall : EvalError → Bool
  | .variadicOutOfContext => true
  | e                     => e.isArgumentMismatch

/-- A run has ended in a refusal. -/
def Refused {α τ : Type} (result : Except EvalError α × τ) : Prop :=
  ∃ e, result.1 = .error e ∧ e.refusesCall = true

/-- A run that never ends in a refusal, whatever it starts from. -/
def NeverRefuses {α τ : Type} (act : ExceptT EvalError (StateM τ) α) : Prop :=
  ∀ t, ¬ Refused (act.run.run t)

namespace NeverRefuses

variable {α β σ τ : Type}

theorem iff_failsWith {act : ExceptT EvalError (StateM τ) α} :
    NeverRefuses act ↔ FailsWith (·.refusesCall = false) act := by
  constructor
  · intro h t e herror
    exact Bool.eq_false_iff.2 fun hrefuses => h t ⟨e, herror, hrefuses⟩
  · rintro h t ⟨e, herror, hrefuses⟩
    exact Bool.false_ne_true ((h t e herror).symm.trans hrefuses)

theorem of_pure (a : α) : NeverRefuses (pure a : ExceptT EvalError (StateM τ) α) := iff_failsWith.2 (.of_pure a)

theorem of_error {e : EvalError} (h : e.refusesCall = false) :
    NeverRefuses (throw e : ExceptT EvalError (StateM τ) α) := iff_failsWith.2 (.of_error h)

theorem bind {act : ExceptT EvalError (StateM τ) β} {f : β → ExceptT EvalError (StateM τ) α}
    (h : NeverRefuses act) (hf : ∀ b, NeverRefuses (f b)) : NeverRefuses (act >>= f) :=
  iff_failsWith.2 ((iff_failsWith.1 h).bind fun b => iff_failsWith.1 (hf b))

theorem of_state (act : StateM τ α) : NeverRefuses (liftM act : ExceptT EvalError (StateM τ) α) :=
  iff_failsWith.2 (.of_state act)

theorem of_store (act : StoreM α) : NeverRefuses (EvalM.onStore act : EvalM σ α) :=
  iff_failsWith.2 (.of_store act)

theorem of_call {act : CallM α} (h : NeverRefuses act) : NeverRefuses (EvalM.onCall act : EvalM σ α) :=
  fun m => h m.store

/-- A fault in the bookkeeping is no refusal. -/
theorem of_fault (act : FaultM α) : NeverRefuses (CallM.ofFaultM act) :=
  iff_failsWith.2 (.of_fault (fun _ => rfl) act)

/-- Evaluating an argument fails only where a name is unbound. -/
theorem evaluate (getters : Getters σ) (caller : ActivationId) (args : Arguments)
    (groups : List (List GroupEntry)) : NeverRefuses (args.evaluate getters caller groups) :=
  iff_failsWith.2 (.evaluate getters caller (fun _ => rfl) args groups)

/-- A callee that is called has its arguments matched. -/
theorem invoke (maxDepth : Nat) (caller : ActivationId) (c : CallableId) (target : Option TargetId)
    (args : List (Option Value)) (demand : CallerDemand) :
    NeverRefuses (Store.invoke maxDepth caller c target args demand) := by
  unfold Store.invoke
  refine bind (of_state _) fun _ => bind (of_state get) fun s => ?_
  dsimp only
  cases (s.callable c).kind with
  | intrinsic body => exact of_pure _
  | closure l enclosing shared =>
      dsimp only
      have hrest : NeverRefuses (do
          let a ← CallM.ofFaultM (Store.newScope l (some enclosing) (s.calleeDepth caller))
          modify (·.hold [.activation a])
          CallM.ofFaultM (Store.bindArguments a ((s.callable c).formals.zip args))
          let s₁ ← get
          let handle := if (s.callable c).wantsCaller then .materialized caller
            else s₁.handleFor demand caller
          let target := target.getD shared
          modify (·.modifyTarget target fun t => { t with calls := t.calls + 1 })
          return Entry.closure target { callable := c, activation := a, caller := handle } : CallM Entry) :=
        bind (of_fault _) fun a => bind (of_state _) fun _ => bind (of_fault _) fun _ =>
          bind (of_state get) fun s₁ => bind (of_state _) fun _ => of_pure _
      split
      · exact bind (of_error rfl) fun _ => hrest
      · exact hrest

theorem runDispatch (i : SiteId) (id : NodeId) (d : Dispatch) (caller : ActivationId)
    (names : SuppliedNames) (values : List Value) :
    NeverRefuses (Chain.runDispatch i id d caller names values) :=
  bind (of_state get) fun _ => bind (of_state _) fun _ => bind (of_state _) fun _ => invoke _ _ _ _ _ _

/-- What follows a match that is cached. -/
theorem evaluate_runDispatch (getters : Getters σ) (i : SiteId) (id : NodeId) (d : Dispatch)
    (caller : ActivationId) (args : Arguments) (entries : List (List GroupEntry))
    (names : SuppliedNames) :
    NeverRefuses (do let values ← Arguments.evaluate getters caller args entries
                     EvalM.onCall (Chain.runDispatch i id d caller names values) : EvalM σ Entry) :=
  bind (evaluate getters caller args entries) fun values => of_call (runDispatch i id d caller names values)

/-- What follows a match that is about to be cached. -/
theorem shapeTo (getters : Getters σ) (i : SiteId) (id : NodeId) (depth limit : Nat) (names : SuppliedNames)
    (args : Arguments) (entries : List (List GroupEntry)) (caller : ActivationId) (c : CallableId)
    (matched : MatchedArguments) :
    NeverRefuses (Chain.shapeTo getters i id depth limit names args entries caller c matched) := by
  unfold Chain.shapeTo
  refine bind (of_store _) fun next => bind (of_store _) fun d => bind (of_store _) fun _ => ?_
  exact evaluate_runDispatch getters i id d caller args entries names

theorem runFixed (getters : Getters σ) (i : SiteId) (id : NodeId) (d : Dispatch) (caller : ActivationId) :
    NeverRefuses (Chain.runFixed getters i id d caller) :=
  bind (of_store get) fun s => evaluate_runDispatch getters i id d caller (s.site i).args [] _

end NeverRefuses

/-- A refusal comes from the second of two steps, or the site is as it was. -/
theorem EvalM.refused_bind {α β σ : Type} {i : SiteId} {m : Machine σ} {act : EvalM σ β} {f : β → EvalM σ α}
    (hact : LeavesSite i act) (h : Refused ((act >>= f).run.run m)) :
    ((act >>= f).run.run m).2.store.site i = m.store.site i
      ∨ ∃ b m₁, m.store.Meanwhile i m₁.store ∧ (act >>= f).run.run m = (f b).run.run m₁
        ∧ Refused ((f b).run.run m₁) := by
  have hkeeps := hact m
  rw [run_bind] at h ⊢
  generalize act.run.run m = result at hkeeps h ⊢
  rcases result with ⟨e | b, m₁⟩
  · exact Or.inl hkeeps.site
  · exact Or.inr ⟨b, m₁, hkeeps, rfl, h⟩

/-! ## Forwarding -/

/-- The node is one of a list of shapes. -/
def Node.holdsShapes : Node → Bool
  | .variadicVacant _ | .variadicCase .. | .variadicGeneric _ => true
  | _ => false

theorem Node.ClosesLinks.holdsShapes {n : Node} {limit length : Nat} (h : n.ClosesLinks limit length) :
    n.holdsShapes = false := by
  cases n <;> first | rfl | exact h.elim

namespace Chain

variable {σ : Type} {getters : Getters σ} {i : SiteId} {caller : ActivationId} {c : CallableId}
  {m m₀ : Machine σ} {nodes nodes' : Array Node} {start id last : NodeId} {args : Arguments}
  {limits : CacheLimits} {limit : Nat} {owner owner' : Nat → NodeId} {fits : Prop}
  {links : List (CallableId × NodeId)}

/-- There are lists of shapes only where the call forwards arguments. -/
def ShapesForwarded (args : Arguments) (nodes : Array Node) : Prop :=
  ∀ (k : Nat) (n : Node), nodes[k]? = some n → n.holdsShapes = true →
    Arguments.forwardsVariadic args = true

namespace ShapesForwarded

theorem extended {old n : Node} {extra : Array Node} (h : ShapesForwarded args nodes)
    (hold : nodes[id.index]? = some old)
    (hn : n.holdsShapes = true → Arguments.forwardsVariadic args = true)
    (hextra : ∀ n ∈ extra, n.holdsShapes = true → Arguments.forwardsVariadic args = true) :
    ShapesForwarded args (Store.extended nodes extra id n) := by
  intro k n' hk hholds
  rcases of_extended hold hk with ⟨-, rfl⟩ | ⟨-, hin⟩ | hin
  · exact hn hholds
  · exact h k n' hin hholds
  · exact hextra n' hin hholds

theorem step (h : ShapesForwarded args nodes) (hstep : NodeStep args limits c fits nodes nodes') :
    ShapesForwarded args nodes' := by
  cases hstep with
  | close demand hfollow =>
      refine h.extended (node_of_follow hfollow) (fun hholds => by cases hholds) fun n hin => ?_
      exact absurd hin (Array.not_mem_empty n)
  | @link id depth handler tail hfollow _ hhandler htail =>
      refine h.extended (node_of_follow hfollow) (fun hholds => by cases hholds) fun n hin hholds => ?_
      rcases (by simpa using hin : n = handler ∨ n = tail) with rfl | rfl
      · cases n with
        | variadicVacant depth => exact hhandler.2
        | fixed d => cases hholds
        | _ => exact hhandler.elim
      · exact absurd (htail.holdsShapes.symm.trans hholds) Bool.false_ne_true
  | closeShapes demand _ hfollow =>
      have hold := node_of_followShapes hfollow
      refine h.extended hold (fun _ => h _ _ hold rfl) fun n hin => absurd hin (Array.not_mem_empty n)
  | shape _ hfollow =>
      have hold := node_of_followShapes hfollow
      exact h.extended hold (fun _ => h _ _ hold rfl) fun _ _ _ => h _ _ hold rfl
  | @redispatch id n d d' hn hd _ =>
      intro k n' hk hholds
      rw [Array.getElem?_modify] at hk
      split at hk
      · rename_i hid
        subst hid
        rw [hn] at hk
        cases hk
        refine h _ n hn ?_
        rcases dispatchOf?_eq_some hd with rfl | ⟨names, next, rfl⟩
        · exact hholds
        · rfl
      · exact h k n' hk hholds

theorem steps (h : ShapesForwarded args nodes)
    (hsteps : Relation.ReflTransGen (NodeStep args limits c fits) nodes nodes') :
    ShapesForwarded args nodes' := by
  induction hsteps with
  | refl => exact h
  | tail _ hstep ih => exact ih.step hstep

end ShapesForwarded

/-- **No call without forwards ever makes a list of shapes.** -/
theorem History.shapesForwarded {calls : List (CallableId × Bool)} (hcalls : History i m₀ calls m)
    (h : InOrder i args limits m₀.store) (hnew : ShapesForwarded args (m₀.store.site i).nodes) :
    ShapesForwarded args (m.store.site i).nodes := by
  induction hcalls with
  | start => exact hnew
  | call hbefore getters caller c ih =>
      obtain ⟨hi, hargs, hlimits, -⟩ := (hbefore.inOrder h).1
      exact ih.steps (evolves_execute getters hi hargs hlimits caller c).nodes
  | meanwhile _ hm ih =>
      rw [hm.site]
      exact ih

/-! ## Shapes -/

/-- What a refused call leaves of the list of shapes that starts at a node. The list is as it was, or has been
    closed since it is as long as it may be. -/
inductive ClosesShapesAt (limits : CacheLimits) (start : NodeId) (nodes : Array Node) : Array Node → Prop
  | same : ClosesShapesAt limits start nodes nodes
  | closed {id : NodeId} {names : SuppliedNames} {depth : Nat} (demand : CallerDemand)
      (hfollow : followShapes nodes names (nodes.size + 1) start = .ok (id, .variadicVacant depth))
      (hfull : limits.variadicDepth ≤ depth) :
      ClosesShapesAt limits start nodes (Store.extended nodes #[] id (.variadicGeneric demand))

namespace ClosesShapesAt

/-- No shape is added. -/
theorem asShape (h : ClosesShapesAt limits start nodes nodes') {k : Nat} {n : Node}
    {shape : SuppliedNames × NodeId} (hn : nodes'[k]? = some n) (hshape : n.asShape = some shape) :
    nodes[k]? = some n := by
  cases h with
  | same => exact hn
  | closed demand hfollow =>
      rcases of_extended (node_of_followShapes hfollow) hn with ⟨-, rfl⟩ | ⟨-, hin⟩ | hin
      · cases hshape
      · exact hin
      · exact absurd hin (Array.not_mem_empty n)

/-- The links are as they were. -/
theorem linksTo (h : ClosesShapesAt limits start nodes nodes') (hlinks : LinksTo limit nodes links last) :
    LinksTo limit nodes' links last := by
  cases h with
  | same => exact hlinks
  | closed demand hfollow =>
      have hold := node_of_followShapes hfollow
      exact hlinks.extended hold (.shapesClosed _ demand) (hlinks.last_ne hold not_false)

end ClosesShapesAt

/-- What a call that closes a list makes of the nodes, however it ends. -/
theorem nodes_runLastly (getters : Getters σ) (hi : m.store.Allocated (.site i)) (id : NodeId)
    (final : CallerDemand → Node) (caller : ActivationId) (c : CallableId) : ∃ demand,
    (((runLastly getters i id final caller c).run.run m).2.store.site i).nodes
      = Store.extended (m.store.site i).nodes #[] id (final demand) := by
  have hrun : (runLastly getters i id final caller c).run.run m
      = (runGeneric getters i ⟨m.store.demands.size⟩ caller c).run.run
        ⟨setNode (demanding m.store false) i id (final ⟨m.store.demands.size⟩), m.host⟩ := rfl
  refine ⟨⟨m.store.demands.size⟩, ?_⟩
  rw [hrun, (leavesSite_runGeneric (i := i) _ caller c _).site, setNode_eq, ← Store.extended_empty,
    Store.site_setNodes (s := demanding m.store false) hi]
  rfl

theorem refused_growShapes (hi : m.store.Allocated (.site i))
    (hlimits : (m.store.site i).limits = limits) {depth : Nat} {names : SuppliedNames}
    (hfollow : followShapes (m.store.site i).nodes names ((m.store.site i).nodes.size + 1) start
      = .ok (id, .variadicVacant depth)) (entries : List (List GroupEntry))
    (hrefused : Refused ((growShapes getters i id depth names entries caller c).run.run m)) :
    ClosesShapesAt limits start (m.store.site i).nodes
      (((growShapes getters i id depth names entries caller c).run.run m).2.store.site i).nodes := by
  rw [growShapes_eq, EvalM.run_store_bind] at hrefused ⊢
  dsimp only at hrefused ⊢
  rw [hlimits] at hrefused ⊢
  by_cases hdepth : depth ≥ limits.variadicDepth
  · obtain ⟨demand, hnodes⟩ := nodes_runLastly getters hi id .variadicGeneric caller c
    rw [if_pos hdepth, hnodes]
    exact .closed demand hfollow hdepth
  · rw [if_neg hdepth] at hrefused ⊢
    have hkeeps := (runMatcher_apart (σ := σ) (i := i) (m.store.site i).matcher c names
      (m.store.site i).source false).keeps
    rcases EvalM.refused_bind hkeeps hrefused with hsame | ⟨matched, m₁, -, -, hrest⟩
    · rw [hsame]
      exact .same
    · -- What follows the match refuses nothing.
      exact absurd hrest (NeverRefuses.shapeTo getters i id depth _ names _ entries caller c matched m₁)

theorem refused_runVariadic (hi : m.store.Allocated (.site i))
    (hlimits : (m.store.site i).limits = limits)
    (hrefused : Refused ((runVariadic getters i start caller c).run.run m)) :
    ClosesShapesAt limits start (m.store.site i).nodes
      (((runVariadic getters i start caller c).run.run m).2.store.site i).nodes := by
  unfold runVariadic at hrefused ⊢
  rw [EvalM.run_store_bind] at hrefused ⊢
  dsimp only at hrefused ⊢
  rw [EvalM.run_ofExcept_bind] at hrefused ⊢
  cases hgroups : Arguments.readGroups (m.store.site i).args m.store caller with
  | error e => exact .same
  | ok groups =>
      rw [hgroups] at hrefused
      dsimp only at hrefused ⊢
      rcases EvalM.refused_bind (EvalM.Apart.hold (i := i) _).keeps hrefused with
        hsame | ⟨_, m₁, hkeeps, hrun, hrest⟩
      · rw [hsame]
        exact .same
      rw [hrun]
      have hi₁ : m₁.store.Allocated (.site i) := Nat.lt_of_lt_of_le hi hkeeps.sites
      generalize Arguments.flattenedNames _ _ = names at hrest ⊢
      rw [← hkeeps.site] at hlimits hrest ⊢
      cases hfollow : followShapes (m₁.store.site i).nodes names ((m₁.store.site i).nodes.size + 1) start with
      | error e => exact .same
      | ok found =>
          obtain ⟨id, n⟩ := found
          rw [hfollow, run_ofFault_bind] at hrest
          rw [run_ofFault_bind]
          cases n with
          | variadicCase cached d next =>
              exact absurd hrest (NeverRefuses.evaluate_runDispatch getters i id d caller _ _ names m₁)
          | variadicVacant depth => exact refused_growShapes hi₁ hlimits hfollow _ hrest
          | variadicGeneric demand =>
              rw [(leavesSite_runGeneric (i := i) demand caller c m₁).site]
              exact .same
          | _ => exact .same

/-! ## Links -/

/-- What a refused call of a function leaves of the nodes of its site. -/
inductive RefusedChange (args : Arguments) (limits : CacheLimits) (c : CallableId) (nodes : Array Node) :
    Array Node → Prop
  | same (hnone : ∀ {id : NodeId} {depth : Nat},
      follow nodes c (nodes.size + 1) .root = .ok (id, .vacant depth) →
        Arguments.checkNames args = .ok () → depth < limits.functionDepth →
          Arguments.forwardsVariadic args = false) : RefusedChange args limits c nodes nodes
  | closed {id : NodeId} {depth : Nat} (demand : CallerDemand)
      (hfollow : follow nodes c (nodes.size + 1) .root = .ok (id, .vacant depth))
      (hchecked : Arguments.checkNames args = .ok ()) (hfull : limits.functionDepth ≤ depth) :
      RefusedChange args limits c nodes (Store.extended nodes #[] id (.generic demand))
  /-- The link is there before the arguments that are to be forwarded have been read. -/
  | linked {id : NodeId} {depth : Nat} {tail : Node} {nodes' : Array Node}
      (hfollow : follow nodes c (nodes.size + 1) .root = .ok (id, .vacant depth))
      (hchecked : Arguments.checkNames args = .ok ()) (hroom : depth < limits.functionDepth)
      (hforwards : Arguments.forwardsVariadic args = true)
      (htail : tail.ClosesLinks limits.functionDepth (depth + 1))
      (hshapes : ClosesShapesAt limits ⟨nodes.size⟩ (Store.extended nodes #[.variadicVacant 0, tail] id
        (.link c ⟨nodes.size⟩ ⟨nodes.size + 1⟩)) nodes') : RefusedChange args limits c nodes nodes'
  | shapes {start : NodeId} {n : Node} {nodes' : Array Node}
      (hfollow : follow nodes c (nodes.size + 1) .root = .ok (start, n)) (hends : ¬ n.EndsLinks)
      (hshapes : ClosesShapesAt limits start nodes nodes') : RefusedChange args limits c nodes nodes'

theorem refused_specialize (hi : m.store.Allocated (.site i)) (hargs : (m.store.site i).args = args)
    (hlimits : (m.store.site i).limits = limits) {depth : Nat}
    (hfollow : follow (m.store.site i).nodes c ((m.store.site i).nodes.size + 1) .root
      = .ok (id, .vacant depth))
    (hrefused : Refused ((specialize getters i id depth caller c).run.run m)) :
    RefusedChange args limits c (m.store.site i).nodes
      (((specialize getters i id depth caller c).run.run m).2.store.site i).nodes := by
  rw [specialize_eq, EvalM.run_store_bind] at hrefused ⊢
  dsimp only at hrefused ⊢
  rw [EvalM.run_ofExcept_bind, hargs, hlimits] at hrefused ⊢
  cases hchecked : Arguments.checkNames args with
  | error e => exact .same fun _ hok => absurd (hchecked.symm.trans hok) (by simp)
  | ok _ =>
      rw [hchecked] at hrefused
      dsimp only at hrefused ⊢
      by_cases hdepth : depth ≥ limits.functionDepth
      · obtain ⟨demand, hnodes⟩ := nodes_runLastly getters hi id .generic caller c
        rw [if_pos hdepth, hnodes]
        exact .closed demand hfollow hchecked hdepth
      rw [if_neg hdepth] at hrefused ⊢
      cases hforwards : Arguments.forwardsVariadic args with
      | true =>
          rw [hforwards, if_pos rfl, pure_bind] at hrefused
          rw [if_pos rfl, pure_bind]
          obtain ⟨ds, tail, htail, hrun⟩ := linkTo_nodes getters caller c hi id depth
            limits.functionDepth (.variadicVacant 0)
          rw [hrun] at hrefused ⊢
          have hsite := Store.site_setNodes (s := { m.store with demands := ds }) hi
            (Store.extended (m.store.site i).nodes #[.variadicVacant 0, tail] id
              (.link c ⟨(m.store.site i).nodes.size⟩ ⟨(m.store.site i).nodes.size + 1⟩))
          generalize hs₁ : Store.setNodes _ i _ = s₁ at hsite hrefused ⊢
          have hi₁ : s₁.Allocated (.site i) := by
            subst hs₁
            exact Nat.lt_of_lt_of_eq hi Array.size_modify.symm
          have hlimits₁ : (s₁.site i).limits = limits := by
            rw [hsite]
            exact hlimits
          have hshapes := refused_runVariadic (m := ⟨s₁, m.host⟩) hi₁ hlimits₁ hrefused
          rw [hsite] at hshapes
          exact .linked hfollow hchecked (Nat.lt_of_not_le hdepth) hforwards htail hshapes
      | false =>
          rw [hforwards, if_neg Bool.false_ne_true] at hrefused
          rw [if_neg Bool.false_ne_true]
          have hkeeps := (runMatcher_apart (σ := σ) (i := i) (m.store.site i).matcher c
            (Arguments.staticNames args) (m.store.site i).source false).keeps
          rcases EvalM.refused_bind hkeeps hrefused with hsame | ⟨matched, m₁, hkeeps₁, -, hrest⟩
          · rw [hsame]
            exact .same fun _ _ _ => hforwards
          · -- What follows the match refuses nothing.
            rw [EvalM.run_bind, newFixed_run] at hrest
            dsimp only at hrest
            have hi₁ : (demanding m₁.store (m₁.store.callable c).wantsCaller).Allocated (.site i) :=
              Nat.lt_of_lt_of_le hi hkeeps₁.sites
            generalize demanding m₁.store _ = s₂ at hi₁ hrest
            obtain ⟨ds, tail, -, hrun⟩ := linkTo_nodes (m := ⟨s₂, m₁.host⟩) getters caller c hi₁ id depth
              limits.functionDepth (.fixed (freshDispatch m₁.store c matched))
            rw [hrun] at hrest
            exact absurd hrest (NeverRefuses.runFixed getters i _ _ caller _)

/-- **What a refused call leaves.** -/
theorem refused_execute (h : InOrder i args limits m.store)
    (hrefused : Refused ((execute getters i caller c).run.run m)) :
    RefusedChange args limits c (m.store.site i).nodes
      (((execute getters i caller c).run.run m).2.store.site i).nodes := by
  obtain ⟨hi, hargs, hlimits, -⟩ := h
  unfold execute at hrefused ⊢
  rw [EvalM.run_store_bind] at hrefused ⊢
  dsimp only at hrefused ⊢
  cases hfollow : follow (m.store.site i).nodes c ((m.store.site i).nodes.size + 1) .root with
  | error e => exact .same fun hvacant => by rw [hfollow] at hvacant; cases hvacant
  | ok found =>
      obtain ⟨id, n⟩ := found
      rw [hfollow, run_ofFault_bind] at hrefused
      rw [run_ofFault_bind]
      have hother : (∀ depth, n ≠ .vacant depth) →
          RefusedChange args limits c (m.store.site i).nodes (m.store.site i).nodes := fun hne =>
        .same fun hvacant => by
          rw [hfollow] at hvacant
          cases hvacant
          exact absurd rfl (hne _)
      cases n with
      | vacant depth => exact refused_specialize hi hargs hlimits hfollow hrefused
      | fixed d => exact absurd hrefused (NeverRefuses.runFixed getters i id d caller m)
      | generic demand | variadicGeneric demand =>
          rw [(leavesSite_runGeneric (i := i) demand caller c m).site]
          exact hother fun _ => nofun
      | variadicVacant depth => exact .shapes hfollow not_false (refused_runVariadic hi hlimits hrefused)
      | variadicCase names d next =>
          exact .shapes hfollow not_false (refused_runVariadic hi hlimits hrefused)
      | link callee handler next => exact hother fun _ => nofun

/-! ## What is cached -/

/-- The functions of a chain, each with the names that have been matched for it. -/
def CachedChain.outline (chain : CachedChain) : List (CallableId × List SuppliedNames) :=
  chain.links.map fun link => (link.callee, link.signatures)

/-- A refused call of a function leaves a link: it forwards arguments, and the function has no link yet. -/
structure LeavesLink (args : Arguments) (limits : CacheLimits) (c : CallableId) (chain : CachedChain) :
    Prop where
  checked : Arguments.checkNames args = .ok ()
  forwards : Arguments.forwardsVariadic args = true
  none : c ∉ chain.callees
  room : chain.links.length < limits.functionDepth

/-- A refused call of a function may leave a list closed that has no room at all. -/
def LeavesClosed (args : Arguments) (limits : CacheLimits) (c : CallableId) (chain : CachedChain) : Prop :=
  (Arguments.checkNames args = .ok () ∧ limits.functionDepth = 0 ∧ chain.generic = false)
    ∨ (Arguments.forwardsVariadic args = true ∧ limits.variadicDepth = 0
      ∧ ∃ link ∈ chain.links, link.callee = c ∧ link.full = false)

/-- Where a link is left, the chain has come to its end for the function. -/
theorem LeavesLink.follow (h : LeavesLink args limits c (cached nodes)) (harranged : Arranged limits nodes owner) :
    ∃ last depth, Chain.follow nodes c (nodes.size + 1) .root = .ok (last, .vacant depth)
      ∧ depth < limits.functionDepth := by
  refine harranged.follow_of_not_mem h.none ?_
  rw [CachedChain.callees, List.length_map]
  exact h.room

namespace RefusedChange

/-- **A refused call adds no shape.** -/
theorem asShape (h : RefusedChange args limits c nodes nodes') {k : Nat} {n : Node}
    {shape : SuppliedNames × NodeId} (hn : nodes'[k]? = some n) (hshape : n.asShape = some shape) :
    nodes[k]? = some n := by
  cases h with
  | same => exact hn
  | closed demand hfollow =>
      rcases of_extended (node_of_follow hfollow) hn with ⟨-, rfl⟩ | ⟨-, hin⟩ | hin
      · cases hshape
      · exact hin
      · exact absurd hin (Array.not_mem_empty n)
  | @linked id depth tail nodes' hfollow _ _ _ htail hshapes =>
      rcases of_extended (node_of_follow hfollow) (hshapes.asShape hn hshape) with ⟨-, rfl⟩ | ⟨-, hin⟩ | hin
      · cases hshape
      · exact hin
      · rcases (by simpa using hin : n = .variadicVacant 0 ∨ n = tail) with rfl | rfl
        · cases hshape
        · have hends := htail.holdsShapes
          cases n with
          | variadicCase names d next => cases hends
          | _ => cases hshape
  | shapes _ _ hshapes => exact hshapes.asShape hn hshape

/-- **A refused call adds a link if it forwards arguments**, and none otherwise. -/
theorem linksTo (h : RefusedChange args limits c nodes nodes') (harranged : Arranged limits nodes owner)
    (hlinks : LinksTo limits.functionDepth nodes links last) :
    (LeavesLink args limits c (cached nodes)
        ∧ ∃ last', LinksTo limits.functionDepth nodes' (links ++ [(c, ⟨nodes.size⟩)]) last')
      ∨ (¬ LeavesLink args limits c (cached nodes) ∧ LinksTo limits.functionDepth nodes' links last) := by
  have hlength : (cached nodes).links.length = links.length := by
    rw [hlinks.cached_links, List.length_map]
  cases h with
  | same hnone =>
      refine Or.inr ⟨fun hleaves => ?_, hlinks⟩
      obtain ⟨id, depth, hfollow, hroom⟩ := hleaves.follow harranged
      exact Bool.false_ne_true ((hnone hfollow hleaves.checked hroom).symm.trans hleaves.forwards)
  | closed demand hfollow _ hfull =>
      have hold := node_of_follow hfollow
      obtain ⟨-, rfl, rfl⟩ := harranged.follow_vacant hlinks hfollow
      refine Or.inr ⟨fun hleaves => absurd (hlength ▸ hleaves.room) (Nat.not_lt_of_le hfull), ?_⟩
      exact hlinks.keeps (.extended hold (.closed _ demand) _) ⟨_, extended_self hold, hfull⟩
  | linked hfollow hchecked hroom hforwards htail hshapes =>
      obtain ⟨hnone, -, hdepth⟩ := harranged.follow_vacant hlinks hfollow
      have hhandler : (Node.variadicVacant 0).Handles args c False := ⟨rfl, hforwards⟩
      have hgrown := (harranged.link hlinks hfollow hroom hhandler htail).1
      refine Or.inl ⟨⟨hchecked, hforwards, hlinks.callees ▸ hnone, ?_⟩, _, hshapes.linksTo hgrown⟩
      rw [hlength, ← hdepth]
      exact hroom
  | shapes hfollow hends hshapes =>
      refine Or.inr ⟨fun hleaves => ?_, hshapes.linksTo hlinks⟩
      obtain ⟨id, depth, hvacant, -⟩ := hleaves.follow harranged
      cases hfollow.symm.trans hvacant
      exact hends trivial

/-- **A refused call changes nothing**, unless it leaves a link, or closes a list that has no room. -/
theorem eq_or (h : RefusedChange args limits c nodes nodes') (harranged : Arranged limits nodes owner)
    (hforwarded : ShapesForwarded args nodes) : nodes' = nodes
      ∨ LeavesLink args limits c (cached nodes) ∨ LeavesClosed args limits c (cached nodes) := by
  obtain ⟨links, last, hlinks⟩ := harranged.links
  rcases h.linksTo harranged hlinks with ⟨hleaves, -⟩ | ⟨hno, -⟩
  · exact Or.inr (Or.inl hleaves)
  cases h with
  | same => exact Or.inl rfl
  | closed demand hfollow hchecked hfull =>
      have hold := node_of_follow hfollow
      obtain ⟨-, rfl, rfl⟩ := harranged.follow_vacant hlinks hfollow
      obtain ⟨n, hn, hcloses⟩ := hlinks.ends
      obtain rfl := Option.some.inj (hn.symm.trans hold)
      have hzero : limits.functionDepth = 0 := by
        have hroom := hcloses.2
        omega
      exact Or.inr (Or.inr (Or.inl ⟨hchecked, hzero, hlinks.generic hn⟩))
  | linked hfollow hchecked hroom hforwards =>
      obtain ⟨hnone, -, hdepth⟩ := harranged.follow_vacant hlinks hfollow
      refine absurd ⟨hchecked, hforwards, hlinks.callees ▸ hnone, ?_⟩ hno
      rw [hlinks.cached_links, List.length_map, ← hdepth]
      exact hroom
  | @shapes start n nodes' hstart hends hshapes =>
      cases hshapes with
      | same => exact Or.inl rfl
      | closed demand hfollow hfull =>
          have hold := node_of_followShapes hfollow
          obtain ⟨-, signatures, hto, -, rfl⟩ := harranged.followShapes_vacant (Or.inl ⟨_, hstart⟩) hfollow
          obtain ⟨end', hend, hcloses⟩ := hto.ends
          obtain rfl := Option.some.inj (hend.symm.trans hold)
          have hzero : limits.variadicDepth = 0 := by
            have hroom := hcloses.2
            omega
          rcases harranged.follow hlinks hstart with ⟨-, -, hclosesLinks⟩ | hin
          · exact absurd hclosesLinks.ends hends
          · refine Or.inr (Or.inr (Or.inr ⟨hforwarded _ _ hold rfl, hzero, cachedLink nodes (c, start), ?_, rfl, ?_⟩))
            · rw [hlinks.cached_links]
              exact List.mem_map_of_mem hin
            · rw [hto.cachedLink_eq hend]
              rfl

/-- What is behind a link has the shapes that it had. -/
theorem signatures (h : RefusedChange args limits c nodes nodes') (harranged : Arranged limits nodes owner)
    (harranged' : Arranged limits nodes' owner') (hkeeps : Keeps nodes nodes')
    (hlinks : LinksTo limits.functionDepth nodes links last) {link : CallableId × NodeId}
    (hlink : link ∈ links) : (cachedLink nodes' link).signatures = (cachedLink nodes link).signatures := by
  obtain ⟨k, next, hk⟩ := hlinks.leads.exists_link hlink
  obtain ⟨link', hk', hbecomes⟩ := hkeeps k _ hk
  cases hbecomes
  obtain ⟨-, names, last₁, hto⟩ := harranged.shapes k link.1 link.2 next hk
  obtain ⟨-, names', last₂, hto'⟩ := harranged'.shapes k link.1 link.2 next hk'
  obtain ⟨n, hn, hcloses⟩ := hto.ends
  obtain ⟨n', hn', hcloses'⟩ := hto'.ends
  obtain ⟨more, rfl, hmore⟩ := (hto.leads.keeps_shapes hkeeps).more hto'.leads hn' hcloses'.asShape
  rw [hto.cachedLink_eq hn link.1, hto'.cachedLink_eq hn' link.1]
  cases hmore with
  | here => exact List.append_nil names
  | next hm hitem =>
      obtain rfl := Option.some.inj ((h.asShape hm hitem).symm.trans hn)
      rw [hcloses.asShape] at hitem
      cases hitem

/-- A link that is left has no shapes behind it. -/
theorem signatures_new (h : RefusedChange args limits c nodes nodes') :
    (cachedLink nodes' (c, ⟨nodes.size⟩)).signatures = [] := by
  have hnone : nodes[nodes.size]? = none := Array.getElem?_eq_none le_rfl
  unfold cachedLink
  dsimp only
  rw [itemsFrom]
  cases hn : nodes'[nodes.size]? with
  | none => rfl
  | some n =>
      dsimp only
      cases hshape : n.asShape with
      | none => rfl
      | some shape =>
          rw [h.asShape hn hshape] at hnone
          cases hnone

end RefusedChange

/-- **What a refused call leaves cached.** After any calls through a site that is new at first, a call that is
    refused for its arguments leaves the site as it was, unless it is the first of its function at a site
    that forwards arguments, or comes to a list without any room. No such call caches a match: at most there
    is one more link, for its function and without shapes, and there is one just when the call forwards
    arguments, its function has none, and there is room. -/
theorem refused_caches {calls : List (CallableId × Bool)} (h : m₀.store.Unused i)
    (hcalls : History i m₀ calls m) (getters : Getters σ) (caller : ActivationId) (c : CallableId)
    (hrefused : Refused ((execute getters i caller c).run.run m)) :
    let args := (m₀.store.site i).args
    let limits := (m₀.store.site i).limits
    let chain := cached (m.store.site i).nodes
    let after := ((execute getters i caller c).run.run m).2.store.site i
    (¬ LeavesLink args limits c chain → ¬ LeavesClosed args limits c chain → after = m.store.site i)
      ∧ (¬ LeavesLink args limits c chain → (cached after.nodes).outline = chain.outline)
      ∧ (LeavesLink args limits c chain → (cached after.nodes).outline = chain.outline ++ [(c, [])]) := by
  dsimp only
  have hstart := inOrder_of_unused h
  have hnew : ShapesForwarded (m₀.store.site i).args (m₀.store.site i).nodes := by
    rw [h.nodes]
    intro k n hk hholds
    obtain rfl : n = .vacant 0 := by simpa using Array.mem_of_getElem? hk
    cases hholds
  obtain ⟨hnow, -⟩ := hcalls.inOrder hstart
  have hforwarded := hcalls.shapesForwarded hstart hnew
  obtain ⟨hafter, hkeeps⟩ := hnow.execute getters caller c
  have hchange := refused_execute hnow hrefused
  have hsite := (evolves_execute getters hnow.made hnow.hasArgs hnow.hasLimits caller c).site
  obtain ⟨owner, harranged⟩ := hnow.arranged
  obtain ⟨owner', harranged'⟩ := hafter.arranged
  generalize ((execute getters i caller c).run.run m).2.store.site i = after at *
  obtain ⟨links, last, hlinks⟩ := harranged.links
  have hsame : ∀ link ∈ links, ((cachedLink after.nodes link).callee, (cachedLink after.nodes link).signatures)
      = ((cachedLink (m.store.site i).nodes link).callee, (cachedLink (m.store.site i).nodes link).signatures) :=
    fun link hlink => Prod.ext rfl (hchange.signatures harranged harranged' hkeeps hlinks hlink)
  have houtline : ∀ {limit : Nat} {nodes : Array Node} {links : List (CallableId × NodeId)} {last : NodeId},
      LinksTo limit nodes links last → (cached nodes).outline
        = links.map fun link => ((cachedLink nodes link).callee, (cachedLink nodes link).signatures) := by
    intro limit nodes links last hto
    rw [CachedChain.outline, hto.cached_links, List.map_map]
    rfl
  refine ⟨fun hno hopen => ?_, fun hno => ?_, fun hleaves => ?_⟩
  · rcases hchange.eq_or harranged hforwarded with heq | hleaves | hcloses
    · rw [hsite, heq]
    · exact absurd hleaves hno
    · exact absurd hcloses hopen
  · rcases hchange.linksTo harranged hlinks with ⟨hleaves, -⟩ | ⟨-, hto⟩
    · exact absurd hleaves hno
    · rw [houtline hto, houtline hlinks, List.map_congr_left hsame]
  · rcases hchange.linksTo harranged hlinks with ⟨-, last', hto⟩ | ⟨hno, -⟩
    · rw [houtline hto, houtline hlinks, List.map_append, List.map_congr_left hsame]
      exact congrArg _ (congrArg (fun names => [(c, names)]) hchange.signatures_new)
    · exact absurd hleaves hno

/-- The chain is full, and a function is called that takes no arguments: the site stays as it is. -/
theorem full_chain_unchanged : narrowSite.Unused ⟨0⟩
    ∧ Refused ((execute zeroGetters ⟨0⟩ ⟨0⟩ ⟨0⟩).run.run (callNarrow ⟨narrowSite, ()⟩ ⟨1⟩))
    ∧ ((execute zeroGetters ⟨0⟩ ⟨0⟩ ⟨0⟩).run.run (callNarrow ⟨narrowSite, ()⟩ ⟨1⟩)).2.store.site ⟨0⟩
      = (callNarrow ⟨narrowSite, ()⟩ ⟨1⟩).store.site ⟨0⟩ := by
  have hunused : narrowSite.Unused ⟨0⟩ := ⟨by decide, rfl⟩
  have hstart : History ⟨0⟩ (⟨narrowSite, ()⟩ : Machine Unit) [] ⟨narrowSite, ()⟩ := .start
  have hrefused : Refused ((execute zeroGetters ⟨0⟩ ⟨0⟩ ⟨0⟩).run.run (callNarrow ⟨narrowSite, ()⟩ ⟨1⟩)) :=
    ⟨.tooManyArguments "f" 0 1, by decide +kernel, rfl⟩
  have hcaches := refused_caches hunused (hstart.call zeroGetters ⟨0⟩ ⟨1⟩) zeroGetters ⟨0⟩ ⟨0⟩ hrefused
  refine ⟨hunused, hrefused, hcaches.1 (fun hleaves => ?_) ?_⟩
  · exact absurd hleaves.forwards (by decide)
  · rintro (⟨-, hzero, -⟩ | ⟨hforwards, -⟩)
    · exact absurd hzero (by decide)
    · exact absurd hforwards (by decide)

/-- A store with a scope, a function `f` without formals, and a site that calls the function as `f(...)`. -/
def forwardingSite : Store :=
  { Store.new ["f"] with
    guards := Array.replicate 2 ⟨"", true⟩
    layouts := #[
      { label := "g", kind := .singleton, policy := {}, noActiveBinding := ⟨0⟩, enclosingGuard := ⟨1⟩
        singleton := some ⟨0⟩ }]
    activations := #[{ serial := 1, layout := ⟨0⟩, depth := 0, enclosing := none }]
    nextSerial := 2
    callables := #[
      { name := ⟨2⟩, label := "f", formals := []
        wantsCaller := false, wantsDedicatedCopy := false, kind := .intrinsic ⟨0⟩ }]
    sites := #[{ callee := .value (.function ⟨0⟩), args := [{ expr := .forward }] }]
    handles := [.layout ⟨0⟩, .activation ⟨0⟩] }

/-- **A link is left behind**: the scope has no leftover arguments that could be forwarded, so the call is
    refused. Its function has got a link. -/
theorem refused_leaves_link : forwardingSite.Unused ⟨0⟩
    ∧ ((execute zeroGetters ⟨0⟩ ⟨0⟩ ⟨0⟩).run.run ⟨forwardingSite, ()⟩).1 = .error .variadicOutOfContext
    ∧ shape forwardingSite ⟨0⟩ = ⟨[], false⟩
    ∧ shape ((execute zeroGetters ⟨0⟩ ⟨0⟩ ⟨0⟩).run.run ⟨forwardingSite, ()⟩).2.store ⟨0⟩
      = ⟨[{ callee := "f" }], false⟩ :=
  ⟨⟨by decide, rfl⟩, by decide +kernel, by decide +kernel, by decide +kernel⟩

/-- A call of whatever function the site's own callee evaluates to is refused as a call of that function is, or
    leaves the site as it was. -/
theorem refused_executeSite (hrefused : Refused ((executeSite getters i caller).run.run m)) :
    ((executeSite getters i caller).run.run m).2.store.site i = m.store.site i
      ∨ ∃ c m₁, m.store.Meanwhile i m₁.store
        ∧ (executeSite getters i caller).run.run m = (execute getters i caller c).run.run m₁
        ∧ Refused ((execute getters i caller c).run.run m₁) := by
  rw [executeSite_eq] at hrefused ⊢
  exact EvalM.refused_bind (calleeOf_within (EvalM.steady_meanwhile getters i) i caller) hrefused

end Chain

end ScopeCall
