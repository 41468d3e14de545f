import ScopeCall.Proofs.Dispatching
import ScopeCall.Proofs.Staying

/-!
# `ScopeCall.Proofs.Installing` — a call installs its node, and then takes it

The nodes that calls run through are those with a demand for the caller: a cached callee, or an end that is closed.
Up to the last step of its preparation, a call does no more to such nodes than to install new ones, each with a
demand of its own. Then it takes one: the node that calls of its function, with the names of its arguments, go
through from then on. If the callee wants copies of its body and the node has not been taken before, that is when
the copy is made.

## Contents
- **Nodes.** `Node.demand?` and `Store.Runs`.
- **Calm.** `Store.Aloof` and `Store.Calm`: no such node changes.
- **Installing.** `Store.Installs` for one node, and `Store.Furthers` for any number of steps.
- **Where calls go.** `Chain.nodeFor`, and `Chain.ComesBy`, which stays true while nodes are added.
- **Taking.** `Chain.Takes`: what the node says is what control is given with.
- **Preparation.** `Chain.prepare_lands`.
-/

namespace ScopeCall

/-! ## Nodes -/

/-- The demand of a node that calls run through. -/
def Node.demand? : Node → Option CallerDemand
  | .fixed d | .variadicCase _ d _             => some d.demand
  | .generic demand | .variadicGeneric demand  => some demand
  | _                                          => none

theorem Node.demand?_of_dispatch {n : Node} {d : Dispatch} (h : Chain.dispatchOf? n = some d) :
    n.demand? = some d.demand := by
  rcases dispatchOf?_eq_some h with rfl | ⟨names, next, rfl⟩ <;> rfl

theorem Node.demand?_withDispatch {n : Node} {d d' : Dispatch} (h : Chain.dispatchOf? n = some d)
    (hsame : d'.demand = d.demand) : (Chain.withDispatch d' n).demand? = some d.demand := by
  rcases dispatchOf?_eq_some h with rfl | ⟨names, next, rfl⟩ <;> exact congrArg some hsame

/-- A node at which following the links, and the shapes for such names, stops. -/
def Node.StopsAt (names : SuppliedNames) : Node → Prop
  | .link ..                => False
  | .variadicCase cached .. => cached = names
  | _                       => True

theorem Chain.dispatchOf?_withDispatch {n : Node} {d d' : Dispatch} (h : dispatchOf? n = some d) :
    dispatchOf? (withDispatch d' n) = some d' := by
  rcases dispatchOf?_eq_some h with rfl | ⟨names, next, rfl⟩ <;> rfl

namespace Store

variable {s s₁ s₂ : Store} {i j : SiteId} {id id' : NodeId} {n n' : Node} {demand : CallerDemand} {c : CallableId}

/-- A node of a call site that calls run through, with its demand. -/
structure Runs (s : Store) (i : SiteId) (id : NodeId) (n : Node) (demand : CallerDemand) : Prop where
  node : (s.site i).nodes[id.index]? = some n
  demand : n.demand? = some demand

theorem Runs.unique (h : s.Runs i id n demand) {demand' : CallerDemand} (h' : s.Runs i id n' demand') :
    n' = n ∧ demand' = demand := by
  obtain rfl := Option.some.inj (h'.node.symm.trans h.node)
  exact ⟨rfl, Option.some.inj (h'.demand.symm.trans h.demand)⟩

/-- Calls run through no node of a site that has only the end of an empty chain. -/
theorem not_runs_of_nodes (hnodes : (s.site i).nodes = #[.vacant 0]) (id : NodeId) (n : Node)
    (demand : CallerDemand) : ¬ s.Runs i id n demand := by
  rintro ⟨hn, hdemand⟩
  rw [hnodes] at hn
  obtain ⟨k⟩ := id
  rcases k with _ | k
  · obtain rfl := Option.some.inj hn
    cases hdemand
  · simp at hn

theorem Runs.allocated (h : s.Runs i id n demand) :
    s.Allocated (.site i) := by
  by_contra hnone
  -- A site that does not exist reads as one with only the end of an empty chain.
  have hdefault : s.site i = default := by
    unfold Store.site
    rw [Array.getElem?_eq_none (Nat.le_of_not_lt hnone)]
    rfl
  exact not_runs_of_nodes (congrArg CallSite.nodes hdefault) id n demand h

theorem Runs.of_sites (h : s₁.sites = s.sites) : s₁.Runs i id n demand ↔ s.Runs i id n demand := by
  have hsite : s₁.site = s.site := by
    unfold Store.site
    rw [h]
  constructor <;> rintro ⟨hn, hd⟩
  · exact ⟨hsite ▸ hn, hd⟩
  · exact ⟨hsite.symm ▸ hn, hd⟩

/-! ## Calm -/

/-- Nodes that calls run through are as they were, as are functions, bodies and demands. -/
structure Aloof (s s' : Store) : Prop where
  runs : ∀ i id n demand, s'.Runs i id n demand ↔ s.Runs i id n demand
  callables : s'.callables = s.callables
  targets : s'.targets = s.targets
  demands : s'.demands = s.demands

/-- Besides, what was held still is. -/
structure Calm (s s' : Store) : Prop extends s.Aloof s' where
  held : ∀ r ∈ s.roots, r ∈ s'.roots

theorem KeepsCalls.calm (h : s.KeepsCalls s₁) : s.Calm s₁ where
  runs _ _ _ _ := Runs.of_sites h.sites
  callables := h.callables
  targets := h.targets
  demands := h.demands
  held := h.held

/-- Other nodes at a site. -/
theorem runs_setNodes (hi : s.Allocated (.site i)) (nodes : Array Node) :
    (s.setNodes i nodes).Runs j id n demand ↔
      if j = i then nodes[id.index]? = some n ∧ n.demand? = some demand else s.Runs j id n demand := by
  have hsite : (s.setNodes i nodes).site j = if j = i then { s.site i with nodes } else s.site j := by
    unfold setNodes
    rw [site_modifySite]
    exact if_congr (and_iff_left hi) rfl rfl
  constructor
  · rintro ⟨hn, hd⟩
    rw [hsite] at hn
    split
    · rw [if_pos ‹_›] at hn
      exact ⟨hn, hd⟩
    · rw [if_neg ‹_›] at hn
      exact ⟨hn, hd⟩
  · intro h
    split at h
    · refine ⟨?_, h.2⟩
      rw [hsite, if_pos ‹_›]
      exact h.1
    · refine ⟨?_, h.demand⟩
      rw [hsite, if_neg ‹_›]
      exact h.node

/-- Nodes change where no calls run through them. -/
theorem calm_setNodes (hi : s.Allocated (.site i)) {nodes : Array Node}
    (h : ∀ (k : Nat) (n : Node), n.demand? ≠ none → (nodes[k]? = some n ↔ (s.site i).nodes[k]? = some n)) :
    s.Calm (s.setNodes i nodes) where
  runs j id n demand := by
    rw [runs_setNodes hi]
    split
    · rename_i hj
      subst hj
      constructor
      · rintro ⟨hn, hd⟩
        exact ⟨(h _ n (hd ▸ Option.some_ne_none _)).1 hn, hd⟩
      · rintro ⟨hn, hd⟩
        exact ⟨(h _ n (hd ▸ Option.some_ne_none _)).2 hn, hd⟩
    · exact .rfl
  callables := rfl
  targets := rfl
  demands := rfl
  held _ hr := hr

/-! ## Installing -/

/-- A node that calls of a function have never run through. Whether it hands over the caller is a matter of the
    function; an end is not for one function. -/
def Fresh (s : Store) (c : CallableId) (needed : Bool) (n : Node) : Prop :=
  match Chain.dispatchOf? n with
  | some d => d.callable = c ∧ needed = (s.callable c).wantsCaller
      ∧ d.splitPending = (s.callable c).wantsDedicatedCopy ∧ d.dedicated = none
  | none   => needed = false

/-- A fresh node is installed, with a demand of its own, where calls ran through none. -/
structure Installs (c : CallableId) (needed : Bool) (i : SiteId) (id : NodeId) (n : Node) (s s' : Store) : Prop where
  fresh : s.Fresh c needed n
  vacant : ∀ n demand, ¬ s.Runs i id n demand
  runs : ∀ j id' n' demand, s'.Runs j id' n' demand
    ↔ s.Runs j id' n' demand ∨ (j = i ∧ id' = id ∧ n' = n ∧ demand = ⟨s.demands.size⟩)
  callables : s'.callables = s.callables
  targets : s'.targets = s.targets
  demands : s'.demands = (Chain.demanding s needed).demands
  held : ∀ r ∈ s.roots, r ∈ s'.roots

/-- A node is put in a place where calls ran through none. -/
theorem installs_setNodes {needed : Bool} (hi : s.Allocated (.site i)) {nodes : Array Node}
    (hfresh : s.Fresh c needed n) (hdemand : n.demand? = some ⟨s.demands.size⟩)
    (hvacant : ∀ n, (s.site i).nodes[id.index]? = some n → n.demand? = none)
    (h : ∀ (k : Nat) (n' : Node), n'.demand? ≠ none →
      (nodes[k]? = some n' ↔ (s.site i).nodes[k]? = some n' ∨ (k = id.index ∧ n' = n))) :
    Installs c needed i id n s ((Chain.demanding s needed).setNodes i nodes) where
  fresh := hfresh
  vacant n' demand hn := by
    have hnone := hvacant n' hn.node
    rw [hn.demand] at hnone
    cases hnone
  runs j id' n' demand := by
    have hbefore : (Chain.demanding s needed).Runs j id' n' demand ↔ s.Runs j id' n' demand :=
      ⟨fun ⟨hn, hd⟩ => ⟨hn, hd⟩, fun ⟨hn, hd⟩ => ⟨hn, hd⟩⟩
    rw [runs_setNodes (s := Chain.demanding s needed) hi]
    split
    · rename_i hj
      subst hj
      constructor
      · rintro ⟨hn, hd⟩
        rcases (h _ n' (hd ▸ Option.some_ne_none _)).1 hn with hold | ⟨hid, rfl⟩
        · exact Or.inl ⟨hold, hd⟩
        · exact Or.inr ⟨rfl, congrArg NodeId.mk hid, rfl, Option.some.inj (hd.symm.trans hdemand)⟩
      · rintro (⟨hn, hd⟩ | ⟨-, rfl, rfl, rfl⟩)
        · exact ⟨(h _ n' (hd ▸ Option.some_ne_none _)).2 (Or.inl hn), hd⟩
        · exact ⟨(h _ n' (hdemand ▸ Option.some_ne_none _)).2 (Or.inr ⟨rfl, rfl⟩), hdemand⟩
    · rename_i hj
      rw [hbefore]
      exact ⟨Or.inl, fun hor => hor.resolve_right fun hnew => hj hnew.1⟩
  callables := rfl
  targets := rfl
  demands := rfl
  held _ hr := hr

/-- A step towards the node of a call: nothing that calls run through changes, or a node is installed. -/
inductive Further (c : CallableId) (s : Store) : Store → Prop
  | calm {s' : Store} (h : s.Calm s') : Further c s s'
  | install {s' : Store} {needed : Bool} {i : SiteId} {id : NodeId} {n : Node}
      (h : Installs c needed i id n s s') : Further c s s'

/-- Any number of steps towards the node of a call. -/
def Furthers (c : CallableId) : Store → Store → Prop := Relation.ReflTransGen (Further c)

theorem Furthers.refl (c : CallableId) (s : Store) : s.Furthers c s := Relation.ReflTransGen.refl

theorem Furthers.trans (h : s.Furthers c s₁) (h' : s₁.Furthers c s₂) : s.Furthers c s₂ :=
  Relation.ReflTransGen.trans h h'

theorem Calm.furthers (h : s.Calm s₁) : s.Furthers c s₁ := .single (.calm h)

theorem KeepsCalls.furthers (h : s.KeepsCalls s₁) : s.Furthers c s₁ := h.calm.furthers

theorem Installs.furthers {needed : Bool} (h : Installs c needed i id n s s₁) : s.Furthers c s₁ :=
  .single (.install h)

theorem Furthers.callables (h : s.Furthers c s₁) : s₁.callables = s.callables := by
  induction h with
  | refl => rfl
  | tail _ hstep ih =>
      cases hstep with
      | calm hcalm => exact hcalm.callables.trans ih
      | install hinstalls => exact hinstalls.callables.trans ih

/-- Nodes that calls run through stay. -/
theorem Furthers.runs (h : s.Furthers c s₁) (hn : s.Runs i id n demand) : s₁.Runs i id n demand := by
  induction h with
  | refl => exact hn
  | tail _ hstep ih =>
      cases hstep with
      | calm hcalm => exact (hcalm.runs i id n demand).2 ih
      | install hinstalls => exact (hinstalls.runs i id n demand).2 (Or.inl ih)

theorem Furthers.held (h : s.Furthers c s₁) {r : Ref} (hr : r ∈ s.roots) : r ∈ s₁.roots := by
  induction h with
  | refl => exact hr
  | tail _ hstep ih =>
      cases hstep with
      | calm hcalm => exact hcalm.held r ih
      | install hinstalls => exact hinstalls.held r ih

end Store

namespace Chain

variable {σ α β : Type} {nodes nodes' : Array Node} {c : CallableId} {names : SuppliedNames} {id start : NodeId}
  {n : Node} {i : SiteId} {caller : ActivationId} {getters : Getters σ} {m : Machine σ}

/-! ## Where calls go -/

/-- A shape that following the shapes stops at is for the names. -/
theorem names_of_followShapes {fuel : Nat} {cached : SuppliedNames} {d : Dispatch} {next : NodeId}
    (h : followShapes nodes names fuel start = .ok (id, .variadicCase cached d next)) : cached = names := by
  induction fuel generalizing start with
  | zero => cases h
  | succ fuel ih =>
      obtain ⟨n, -, hn, -⟩ := exists_of_followShapes h
      rw [followShapes_succ names fuel hn] at h
      cases n with
      | variadicCase cached' d' next' =>
          dsimp only at h
          split at h
          · rename_i hnames
            cases h
            exact hnames
          · exact ih h
      | _ => cases h

/-- The node that calls of a function go through, where their arguments have such names. -/
def nodeFor (nodes : Array Node) (c : CallableId) (names : SuppliedNames) : NodeId :=
  match follow nodes c (nodes.size + 1) .root with
  | .error _       => .root
  | .ok (start, _) =>
    match followShapes nodes names (nodes.size + 1) start with
    | .error _    => .root
    | .ok (id, _) => id

/-- Following the links for a function comes to a node. -/
def Comes (nodes : Array Node) (c : CallableId) (start : NodeId) : Prop :=
  ∃ fuel first, fuel ≤ nodes.size + 1 ∧ follow nodes c fuel .root = .ok (start, first)

/-- Following the links, and then the shapes for such names, comes to a node. -/
def ComesBy (nodes : Array Node) (c : CallableId) (names : SuppliedNames) (id : NodeId) : Prop :=
  ∃ start fuel n, Comes nodes c start ∧ fuel ≤ nodes.size + 1 ∧ followShapes nodes names fuel start = .ok (id, n)

theorem ComesBy.nodeFor_eq (h : ComesBy nodes c names id) : nodeFor nodes c names = id := by
  obtain ⟨start, fuel', n, ⟨fuel, first, hle, hfollow⟩, hle', hshapes⟩ := h
  unfold nodeFor
  rw [follow_mono hfollow hle]
  dsimp only
  rw [followShapes_mono hshapes hle']

/-- A node that is no shape is where following the shapes from it comes to. -/
theorem Comes.by (h : Comes nodes c id) (hn : nodes[id.index]? = some n) (hend : n.asShape = none) :
    ComesBy nodes c names id := by
  refine ⟨id, 1, n, h, Nat.le_add_left _ _, ?_⟩
  rw [followShapes_succ names 0 hn]
  cases n <;> first | rfl | cases hend

/-- The way through links that stay is the same. -/
theorem follow_keeps (hkeeps : Keeps nodes nodes') {fuel : Nat} {r : NodeId × Node}
    (h : follow nodes c fuel id = .ok r) :
    ∃ used < fuel, ∀ k, follow nodes' c (used + k) id = follow nodes' c k r.1 := by
  induction fuel generalizing id with
  | zero => cases h
  | succ fuel ih =>
      obtain ⟨n, -, hn, -⟩ := exists_of_follow h
      rw [follow_succ c fuel hn] at h
      cases n with
      | link callee handler next =>
          obtain ⟨n', hn', hbecomes⟩ := hkeeps _ _ hn
          -- A link stays the link it is, so the way goes on as it did.
          cases hbecomes
          obtain ⟨used, hlt, hsame⟩ := ih h
          refine ⟨used + 1, Nat.succ_lt_succ hlt, fun k => ?_⟩
          rw [Nat.add_right_comm, follow_succ c _ hn']
          exact hsame k
      | _ =>
          obtain rfl := Except.ok.inj h
          exact ⟨0, Nat.succ_pos _, fun k => by rw [Nat.zero_add]⟩

/-- So is the way through shapes. Where it goes on, it does from a shape. -/
theorem followShapes_keeps (hkeeps : Keeps nodes nodes') {fuel : Nat} {r : NodeId × Node}
    (h : followShapes nodes names fuel id = .ok r) :
    (∃ used < fuel, ∀ k, followShapes nodes' names (used + k) id = followShapes nodes' names k r.1)
      ∧ (r.1 = id ∨ ∃ n', nodes'[id.index]? = some n' ∧ n'.asLink = none) := by
  induction fuel generalizing id with
  | zero => cases h
  | succ fuel ih =>
      obtain ⟨n, -, hn, -⟩ := exists_of_followShapes h
      rw [followShapes_succ names fuel hn] at h
      have hhere : r.1 = id → ∃ used < fuel + 1, ∀ k,
          followShapes nodes' names (used + k) id = followShapes nodes' names k r.1 := fun heq =>
        ⟨0, Nat.succ_pos _, fun k => by rw [heq, Nat.zero_add]⟩
      cases n with
      | variadicCase cached d next =>
          dsimp only at h
          split at h
          · obtain rfl := Except.ok.inj h
            exact ⟨hhere rfl, Or.inl rfl⟩
          · rename_i hnames
            obtain ⟨n', hn', hbecomes⟩ := hkeeps _ _ hn
            obtain ⟨d', rfl⟩ : ∃ d', n' = .variadicCase cached d' next := by
              cases hbecomes with
              | same => exact ⟨d, rfl⟩
              | shapeCopied => exact ⟨_, rfl⟩
            obtain ⟨⟨used, hlt, hsame⟩, -⟩ := ih h
            refine ⟨⟨used + 1, Nat.succ_lt_succ hlt, fun k => ?_⟩, Or.inr ⟨_, hn', rfl⟩⟩
            rw [Nat.add_right_comm, followShapes_succ names _ hn']
            dsimp only
            rw [if_neg hnames]
            exact hsame k
      | _ =>
          obtain rfl := Except.ok.inj h
          exact ⟨hhere rfl, Or.inl rfl⟩

theorem Keeps.size_le (h : Keeps nodes nodes') : nodes.size ≤ nodes'.size := by
  by_contra hlt
  have hlt := Nat.lt_of_not_le hlt
  obtain ⟨n', hn', -⟩ := h nodes'.size _ (Array.getElem?_eq_getElem hlt)
  simp at hn'

/-- Where following the links comes to a node that is no link, it still does when nodes have been added. -/
theorem Comes.keeps (h : Comes nodes c start) (hkeeps : Keeps nodes nodes') (hn : nodes'[start.index]? = some n)
    (hend : n.asLink = none) : Comes nodes' c start := by
  obtain ⟨fuel, first, hle, hfollow⟩ := h
  obtain ⟨used, hlt, hsame⟩ := follow_keeps hkeeps hfollow
  refine ⟨used + 1, n, by have := hkeeps.size_le; omega, ?_⟩
  rw [hsame 1, follow_succ c 0 hn]
  cases n <;> first | rfl | cases hend

/-- **Calls go where they went**, if they still stop there, when nodes have been added. -/
theorem ComesBy.keeps (h : ComesBy nodes c names id) (hkeeps : Keeps nodes nodes')
    (hn : nodes'[id.index]? = some n) (hstops : n.StopsAt names) : ComesBy nodes' c names id := by
  obtain ⟨start, fuel, last, hcomes, hle, hshapes⟩ := h
  obtain ⟨⟨used, hlt, hsame⟩, hstart⟩ := followShapes_keeps hkeeps hshapes
  -- What the shapes start from has not become a link, so following the links still ends there.
  have hfirst : ∃ n', nodes'[start.index]? = some n' ∧ n'.asLink = none := by
    rcases hstart with heq | hfirst
    · dsimp only at heq
      subst heq
      refine ⟨n, hn, ?_⟩
      cases n <;> first | rfl | exact hstops.elim
    · exact hfirst
  obtain ⟨n', hn', hend⟩ := hfirst
  refine ⟨start, used + 1, n, hcomes.keeps hkeeps hn' hend, by have := hkeeps.size_le; omega, ?_⟩
  rw [hsame 1, followShapes_succ names 0 hn]
  cases n with
  | variadicCase cached d next =>
      obtain rfl : cached = names := hstops
      exact if_pos rfl
  | _ => rfl

/-- A link for a function, put where following comes to, leads on to its handler. -/
theorem Comes.link {depth : Nat} (h : Comes nodes c id) (hold : nodes[id.index]? = some (.vacant depth))
    {handler tail : Node} (hend : handler.asLink = none) :
    Comes (Store.extended nodes #[handler, tail] id (.link c ⟨nodes.size⟩ ⟨nodes.size + 1⟩)) c ⟨nodes.size⟩ := by
  obtain ⟨fuel, first, hle, hfollow⟩ := h
  have hkeeps := Keeps.extended hold (.linked depth c ⟨nodes.size⟩ ⟨nodes.size + 1⟩) #[handler, tail]
  have hhandler : (Store.extended nodes #[handler, tail] id
      (.link c ⟨nodes.size⟩ ⟨nodes.size + 1⟩))[(⟨nodes.size⟩ : NodeId).index]? = some handler := extended_add hold 0
  obtain ⟨used, hlt, hsame⟩ := follow_keeps hkeeps hfollow
  refine ⟨used + 2, handler, ?_, ?_⟩
  · rw [size_extended]
    show used + 2 ≤ nodes.size + 2 + 1
    omega
  · rw [hsame 2, follow_succ c 1 (extended_self hold)]
    dsimp only
    rw [if_pos rfl, follow_succ c 0 hhandler]
    cases handler <;> first | rfl | cases hend

/-! ## Taking -/

/-- The dispatch of a node once it has been taken. -/
def taken (s : Store) (d : Dispatch) : Dispatch :=
  if d.splitPending then Store.settled d ((s.callable d.callable).target?.map fun _ => ⟨s.targets.size⟩) else d

/-- Taking a node replaces its dispatch, if a copy is still to be made. -/
theorem dispatchTarget_cases (s : Store) (i : SiteId) (id : NodeId) (d : Dispatch) :
    (d.splitPending = false ∧ ((dispatchTarget i id d).run s).2 = s)
      ∨ d.splitPending = true ∧ ∃ s₁ : Store, s₁.sites = s.sites ∧ s₁.demands = s.demands ∧ s₁.roots = s.roots
        ∧ (∀ c, s₁.callable c = { s.callable c with copies := (s₁.callable c).copies })
        ∧ s₁.callables.size = s.callables.size
        ∧ ((dispatchTarget i id d).run s).2
          = s₁.setNodes i ((s.site i).nodes.modify id.index (withDispatch (taken s d))) := by
  unfold taken
  rw [Store.dispatchTarget_run]
  cases hsplit : d.splitPending with
  | false => exact Or.inl ⟨rfl, rfl⟩
  | true =>
      refine Or.inr ⟨rfl, ?_⟩
      rw [if_pos rfl, if_pos rfl, Store.dedicatedCopy_run]
      cases (s.callable d.callable).target? with
      | none => exact ⟨s, rfl, rfl, rfl, fun _ => rfl, rfl, rfl⟩
      | some t =>
          exact ⟨s.copied d.callable t, rfl, rfl, rfl, fun c => Store.callable_copied s d.callable c t,
            Array.size_modify, rfl⟩

theorem withDispatch_self {d : Dispatch} (h : dispatchOf? n = some d) : withDispatch d n = n := by
  rcases dispatchOf?_eq_some h with rfl | ⟨cached, next, rfl⟩ <;> rfl

/-- **Taking a node changes no other.** -/
theorem runs_dispatchTarget {s : Store} {d : Dispatch} {demand demand' : CallerDemand} {j : SiteId} {id' : NodeId}
    {n' : Node} (hn : s.Runs i id n demand) (hd : dispatchOf? n = some d) :
    ((dispatchTarget i id d).run s).2.Runs j id' n' demand'
      ↔ if j = i ∧ id' = id then n' = withDispatch (taken s d) n ∧ demand' = demand
        else s.Runs j id' n' demand' := by
  have hsame : (taken s d).demand = d.demand := by
    unfold taken
    split <;> rfl
  have hdemand := (Node.demand?_of_dispatch hd).symm.trans hn.demand
  rcases dispatchTarget_cases s i id d with ⟨hsplit, hrun⟩ | ⟨-, s₁, hsites, -, -, -, -, hrun⟩
  · have htaken : taken s d = d := by
      unfold taken
      rw [if_neg (Bool.eq_false_iff.1 hsplit)]
    rw [hrun, htaken, withDispatch_self hd]
    split
    · rename_i hhere
      obtain ⟨rfl, rfl⟩ := hhere
      refine ⟨fun h => hn.unique h, ?_⟩
      rintro ⟨rfl, rfl⟩
      exact hn
    · exact .rfl
  · have hi : s₁.Allocated (.site i) := by
      have hi := hn.allocated
      unfold Store.Allocated at hi ⊢
      rwa [hsites]
    have hsite : s₁.site i = s.site i := by
      unfold Store.site
      rw [hsites]
    rw [hrun, Store.runs_setNodes hi, Store.Runs.of_sites hsites, Array.getElem?_modify]
    by_cases hj : j = i
    · subst hj
      rw [if_pos rfl]
      by_cases hid : id' = id
      · subst hid
        rw [if_pos rfl, if_pos ⟨rfl, rfl⟩, hn.node]
        constructor
        · rintro ⟨heq, hdemand'⟩
          obtain rfl := Option.some.inj heq
          rw [Node.demand?_withDispatch hd hsame, hdemand] at hdemand'
          exact ⟨rfl, (Option.some.inj hdemand').symm⟩
        · rintro ⟨rfl, rfl⟩
          exact ⟨rfl, (Node.demand?_withDispatch hd hsame).trans hdemand⟩
      · rw [if_neg fun h => hid (congrArg NodeId.mk h.symm), if_neg fun h => hid h.2]
        exact ⟨fun ⟨hnode, hd'⟩ => ⟨hnode, hd'⟩, fun ⟨hnode, hd'⟩ => ⟨hnode, hd'⟩⟩
    · rw [if_neg hj, if_neg fun h => hj h.1]

/-- A call takes the node that it goes through: what is prepared is for the node's function, and runs the node's
    copy of the body, if it has one, and else the shared body. A copy that is still to be made is made now. An end
    has no function of its own, and no copy. -/
inductive Takes (i : SiteId) (id : NodeId) (p : Prepared) (s : Store) : Store → Prop
  | anew {n : Node} (h : s.Runs i id n p.demand) (hn : dispatchOf? n = none)
      (ht : p.target = (s.callable p.callable).target?) : Takes i id p s s
  | cached {s' : Store} {n : Node} {d : Dispatch} (h : s.Runs i id n p.demand) (hn : dispatchOf? n = some d)
      (hc : d.callable = p.callable) (hrun : (dispatchTarget i id d).run s = (p.target, s')) : Takes i id p s s'

/-- Functions are as they were but for their counts of copies, and what was held still is. -/
theorem Takes.rest {p : Prepared} {s s₁ : Store} (h : Takes i id p s s₁) :
    (∀ c, s₁.callable c = { s.callable c with copies := (s₁.callable c).copies })
      ∧ s₁.callables.size = s.callables.size ∧ s₁.roots = s.roots := by
  cases h with
  | anew => exact ⟨fun _ => rfl, rfl, rfl⟩
  | cached _ _ _ hrun =>
      rename_i d _ _ _
      have hcases := dispatchTarget_cases s i id d
      rw [hrun] at hcases
      rcases hcases with ⟨-, rfl⟩ | ⟨-, s₂, -, -, hroots, hcallable, hsize, rfl⟩
      · exact ⟨fun _ => rfl, rfl, rfl⟩
      · exact ⟨hcallable, hsize, hroots⟩

/-- The names of the arguments of a call from a scope, with the leftover arguments that are bound there. -/
def suppliedNames (s : Store) (i : SiteId) (caller : ActivationId) : SuppliedNames :=
  match Arguments.readGroups (s.site i).args s caller with
  | .ok groups => Arguments.flattenedNames (s.site i).args (Arguments.entriesOf s groups)
  | .error _   => []

/-- A preparation fails on the way to its node, or takes it: the node that calls like this one go through then. -/
def Lands (i : SiteId) (c : CallableId) (names : SuppliedNames) (s : Store) :
    Except EvalError Prepared × Machine σ → Prop
  | (.error _, m) => s.Furthers c m.store
  | (.ok p, m)    => ∃ s₁, s.Furthers c s₁ ∧ Takes i (nodeFor (m.store.site i).nodes c names) p s₁ m.store

theorem Lands.after {s s₁ : Store} (h : s.Furthers c s₁) {result : Except EvalError Prepared × Machine σ}
    (hlands : Lands i c names s₁ result) : Lands i c names s result := by
  rcases result with ⟨e | p, m⟩
  · exact h.trans hlands
  · obtain ⟨s₂, hfurthers, htakes⟩ := hlands
    exact ⟨s₂, h.trans hfurthers, htakes⟩

/-- A first step that has nothing to do with calls. -/
theorem lands_bind {act : EvalM σ α} {f : α → EvalM σ Prepared} (hact : EvalM.Within Store.KeepsCalls act)
    (hf : ∀ a (m₁ : Machine σ), act.run.run m = (.ok a, m₁) → m.store.KeepsCalls m₁.store →
      Lands i c names m₁.store ((f a).run.run m₁)) :
    Lands i c names m.store ((act >>= f).run.run m) := by
  have hm := hact m
  rw [EvalM.run_bind]
  generalize act.run.run m = result at hm hf ⊢
  rcases result with ⟨e | a, m₁⟩
  · exact hm.furthers
  · exact (hf a m₁ rfl hm).after hm.furthers

/-! ## Preparation -/

/-- A node put in the place of one that calls do not run through. -/
theorem getElem?_setIfInBounds_runs {old n' : Node} (hold : nodes[id.index]? = some old) (hvacant : old.demand? = none)
    (n : Node) (k : Nat) (hn' : n'.demand? ≠ none) : (nodes.setIfInBounds id.index n)[k]? = some n'
      ↔ nodes[k]? = some n' ∨ (k = id.index ∧ n' = n) := by
  rw [Array.getElem?_setIfInBounds]
  by_cases hk : id.index = k
  · subst hk
    rw [if_pos rfl, if_pos (Array.getElem?_eq_some_iff.1 hold).1, hold]
    constructor
    · intro heq
      exact Or.inr ⟨rfl, (Option.some.inj heq).symm⟩
    · rintro (heq | ⟨-, rfl⟩)
      · exact absurd (Option.some.inj heq ▸ hvacant) hn'
      · rfl
  · rw [if_neg hk]
    exact ⟨Or.inl, fun h => h.resolve_right fun hnew => hk hnew.1.symm⟩

theorem getElem?_push_or (nodes : Array Node) (n n' : Node) (k : Nat) :
    (nodes.push n)[k]? = some n' ↔ nodes[k]? = some n' ∨ (k = nodes.size ∧ n' = n) := by
  rw [Array.getElem?_push]
  by_cases hk : k = nodes.size
  · subst hk
    rw [if_pos rfl, Array.getElem?_eq_none le_rfl]
    constructor
    · intro heq
      exact Or.inr ⟨rfl, (Option.some.inj heq).symm⟩
    · rintro (heq | ⟨-, rfl⟩)
      · cases heq
      · rfl
  · rw [if_neg hk]
    exact ⟨Or.inl, fun h => h.resolve_right fun hnew => hk hnew.1⟩

/-- A node is added behind the others. -/
theorem furthers_push {s : Store} {needed : Bool} (hi : s.Allocated (.site i)) (hfresh : s.Fresh c needed n)
    (hdemand : n.demand? = some ⟨s.demands.size⟩) :
    s.Furthers c ((demanding s needed).setNodes i ((s.site i).nodes.push n)) := by
  have hinstalls : s.Installs c needed i ⟨(s.site i).nodes.size⟩ n
      ((demanding s needed).setNodes i ((s.site i).nodes.push n)) := by
    refine Store.installs_setNodes hi hfresh hdemand (fun n' hn' => ?_)
      fun k n' _ => getElem?_push_or (s.site i).nodes n n' k
    rw [Array.getElem?_eq_none le_rfl] at hn'
    cases hn'
  exact hinstalls.furthers

/-- A node is put in the place of one that calls do not run through. -/
theorem furthers_set {s : Store} {needed : Bool} (hi : s.Allocated (.site i)) (hfresh : s.Fresh c needed n)
    (hdemand : n.demand? = some ⟨s.demands.size⟩) {old : Node} (hold : (s.site i).nodes[id.index]? = some old)
    (hvacant : old.demand? = none) :
    s.Furthers c ((demanding s needed).setNodes i ((s.site i).nodes.setIfInBounds id.index n)) := by
  have hinstalls : s.Installs c needed i id n
      ((demanding s needed).setNodes i ((s.site i).nodes.setIfInBounds id.index n)) := by
    refine Store.installs_setNodes hi hfresh hdemand (fun n' hn' => ?_)
      fun k n' hn' => getElem?_setIfInBounds_runs hold hvacant n k hn'
    obtain rfl := Option.some.inj (hn'.symm.trans hold)
    exact hvacant
  exact hinstalls.furthers

/-- Nodes that calls do not run through are put behind the others, or in the place of others like them. -/
theorem furthers_push_vacant {s : Store} (hi : s.Allocated (.site i)) (hvacant : n.demand? = none) :
    s.Furthers c (s.setNodes i ((s.site i).nodes.push n)) := by
  refine (Store.calm_setNodes hi fun k n' hn' => ?_).furthers
  rw [getElem?_push_or]
  exact ⟨fun h => h.resolve_right fun hnew => hn' (hnew.2 ▸ hvacant), Or.inl⟩

theorem furthers_set_vacant {s : Store} (hi : s.Allocated (.site i)) (hn : n.demand? = none) {old : Node}
    (hold : (s.site i).nodes[id.index]? = some old) (hvacant : old.demand? = none) :
    s.Furthers c (s.setNodes i ((s.site i).nodes.setIfInBounds id.index n)) := by
  refine (Store.calm_setNodes hi fun k n' hn' => ?_).furthers
  rw [getElem?_setIfInBounds_runs hold hvacant n k hn']
  exact ⟨fun h => h.resolve_right fun hnew => hn' (hnew.2 ▸ hn), Or.inl⟩

/-- The node is found again after it has been taken. -/
theorem comesBy_dispatchTarget {s : Store} {d : Dispatch} (hi : s.Allocated (.site i))
    (hn : (s.site i).nodes[id.index]? = some n) (hd : dispatchOf? n = some d) (hstops : n.StopsAt names)
    (hcomes : ComesBy (s.site i).nodes c names id) :
    ComesBy (((dispatchTarget i id d).run s).2.site i).nodes c names id := by
  -- Only the dispatch of the node is replaced, which is not what following looks at.
  have hcopy : ∀ copy, ComesBy ((s.site i).nodes.modify id.index (withDispatch (Store.settled d copy))) c names id := by
    intro copy
    have hnode : ((s.site i).nodes.modify id.index (withDispatch (Store.settled d copy)))[id.index]?
        = some (withDispatch (Store.settled d copy) n) := by
      rw [Array.getElem?_modify, if_pos rfl, hn]
      rfl
    refine hcomes.keeps (.redispatched hn hd rfl) hnode ?_
    rcases dispatchOf?_eq_some hd with rfl | ⟨cached, next, rfl⟩
    · trivial
    · exact hstops
  rw [Store.dispatchTarget_run]
  split
  · rw [Store.dedicatedCopy_run]
    cases (s.callable d.callable).target? with
    | none =>
        dsimp only
        rw [Store.site_setNodes hi]
        exact hcopy none
    | some t =>
        dsimp only
        rw [Store.site_setNodes (s := s.copied d.callable t) hi]
        exact hcopy _
  · exact hcomes

/-- What follows a match: values are evaluated, and the node of a cached callee is taken. -/
theorem lands_evaluate {d : Dispatch} (hi : m.store.Allocated (.site i))
    (hn : (m.store.site i).nodes[id.index]? = some n) (hd : dispatchOf? n = some d) (hstops : n.StopsAt names)
    (hcomes : ComesBy (m.store.site i).nodes c names id) (args : Arguments) (entries : List (List GroupEntry))
    (supplied : SuppliedNames) :
    Lands i c names m.store ((do let values ← Arguments.evaluate getters caller args entries
                                 EvalM.onCall (prepareDispatch i id d supplied values) :
                                   EvalM σ Prepared).run.run m) := by
  refine lands_bind ((Store.steady_keepsCalls getters).within_evaluate caller args entries)
    fun values m₁ _ hm₁ => ?_
  -- The values are bound on the heap before the node is taken.
  let s₂ : Store := { m₁.store with
    heap := ((d.matched.bind (m₁.store.callable d.callable).formals supplied values).run m₁.store.heap).2 }
  have hs₂ : m₁.store.KeepsCalls s₂ := .of_eq rfl rfl rfl rfl rfl rfl
  have hsites : s₂.sites = m.store.sites := hm₁.sites
  have hsite : s₂.site i = m.store.site i := by
    unfold Store.site
    rw [hsites]
  rw [← hsite] at hn hcomes
  have hi₂ : s₂.Allocated (.site i) := by
    unfold Store.Allocated at hi ⊢
    rwa [hsites]
  refine ⟨s₂, hs₂.furthers, ?_⟩
  have hfor := (comesBy_dispatchTarget hi₂ hn hd hstops hcomes).nodeFor_eq
  have htakes : Takes i (nodeFor (((dispatchTarget i id d).run s₂).2.site i).nodes c names)
      { maxDepth := (m₁.store.site i).maxDepth
        callable := d.callable
        target := ((dispatchTarget i id d).run s₂).1
        args := ((d.matched.bind (m₁.store.callable d.callable).formals supplied values).run m₁.store.heap).1
        demand := d.demand } s₂ ((dispatchTarget i id d).run s₂).2 := by
    rw [hfor]
    exact .cached ⟨hn, Node.demand?_of_dispatch hd⟩ hd rfl rfl
  exact htakes

/-- A store that keeps what concerns calls has its nodes for calls to come to. -/
theorem site_of_keepsCalls {s s₁ : Store} (h : s.KeepsCalls s₁) (i : SiteId) : s₁.site i = s.site i := by
  unfold Store.site
  rw [h.sites]

theorem allocated_of_keepsCalls {s s₁ : Store} (h : s.KeepsCalls s₁) (hi : s.Allocated (.site i)) :
    s₁.Allocated (.site i) := by
  unfold Store.Allocated at hi ⊢
  rwa [h.sites]

/-- An end is there to be taken where nothing that concerns calls has been done. -/
theorem takes_anew {s s₁ : Store} {p : Prepared} (hn : s.Runs i id n p.demand) (hd : dispatchOf? n = none)
    (hcomes : ComesBy (s.site i).nodes c names id) (hs : s.KeepsCalls s₁)
    (ht : p.target = (s₁.callable p.callable).target?) :
    Takes i (nodeFor (s₁.site i).nodes c names) p s₁ s₁ := by
  rw [site_of_keepsCalls hs, hcomes.nodeFor_eq]
  exact .anew ((hs.calm.runs i id n p.demand).2 hn) hd ht

/-- A call that is matched anew takes the end that it comes to. -/
theorem lands_generic {demand : CallerDemand} (hn : m.store.Runs i id n demand) (hd : dispatchOf? n = none)
    (hcomes : ComesBy (m.store.site i).nodes c names id) :
    Lands i c names m.store ((prepareGeneric getters i demand caller c).run.run m) := by
  have hsteady := Store.steady_keepsCalls getters
  unfold prepareGeneric
  refine lands_bind (fun m => .refl m.store) fun s m₁ _ hm₁ => ?_
  refine lands_bind (hsteady.of_result _) fun _ m₂ _ hm₂ => ?_
  refine lands_bind (hsteady.of_result _) fun groups m₃ _ hm₃ => ?_
  refine lands_bind (hsteady.within_hold _) fun _ m₄ _ hm₄ => ?_
  refine lands_bind (fun m => Store.keepsCalls_runMatcher _ c _ _ true m.store) fun matched m₅ _ hm₅ => ?_
  refine lands_bind (hsteady.within_evaluate caller _ _) fun values m₆ _ hm₆ => ?_
  let s₇ : Store := { m₆.store with
    heap := ((matched.bind (m₆.store.callable c).formals (Arguments.flattenedNames (s.site i).args
      (Arguments.entriesOf s groups)) values).run m₆.store.heap).2 }
  have hs₇ : m₆.store.KeepsCalls s₇ := .of_eq rfl rfl rfl rfl rfl rfl
  -- Nothing up to here concerns calls, so the end is still the node they come to.
  have hall := (((((hm₁.trans hm₂).trans hm₃).trans hm₄).trans hm₅).trans hm₆).trans hs₇
  exact ⟨s₇, hs₇.furthers, takes_anew hn hd hcomes hall rfl⟩

/-- A chain, or a list of shapes, is closed, and the call takes the end. -/
theorem lands_lastly {old : Node} {final : CallerDemand → Node} (hi : m.store.Allocated (.site i))
    (hold : (m.store.site i).nodes[id.index]? = some old) (hvacant : old.demand? = none)
    (hfinal : ∀ demand, old.Becomes (final demand) ∧ (final demand).demand? = some demand
      ∧ dispatchOf? (final demand) = none ∧ (final demand).StopsAt names)
    (hcomes : ComesBy (m.store.site i).nodes c names id) :
    Lands i c names m.store ((prepareLastly getters i id final caller c).run.run m) := by
  obtain ⟨hbecomes, hdemand, hd, hstops⟩ := hfinal ⟨m.store.demands.size⟩
  have hset : setNode (demanding m.store false) i id (final ⟨m.store.demands.size⟩)
      = (demanding m.store false).setNodes i
        ((m.store.site i).nodes.setIfInBounds id.index (final ⟨m.store.demands.size⟩)) := setNode_eq _ _ _ _
  have hrun : (prepareLastly getters i id final caller c).run.run m
      = (prepareGeneric getters i ⟨m.store.demands.size⟩ caller c).run.run
        ⟨setNode (demanding m.store false) i id (final ⟨m.store.demands.size⟩), m.host⟩ := rfl
  rw [hrun, hset]
  generalize final ⟨m.store.demands.size⟩ = n at hbecomes hdemand hd hstops ⊢
  have hfresh : m.store.Fresh c false n := by
    unfold Store.Fresh
    rw [hd]
  -- The end is installed, and then taken as if it had been there.
  refine Lands.after (furthers_set hi hfresh hdemand hold hvacant) ?_
  have hkeeps := Keeps.extended hold hbecomes #[]
  have hnode : (Store.extended (m.store.site i).nodes #[] id n)[id.index]? = some n := extended_self hold
  rw [Store.extended_empty] at hkeeps hnode
  generalize (m.store.site i).nodes.setIfInBounds id.index n = nodes' at hkeeps hnode ⊢
  have hsite := Store.site_setNodes (s := demanding m.store false) hi nodes'
  have hruns : ((demanding m.store false).setNodes i nodes').Runs i id n ⟨m.store.demands.size⟩ := by
    refine ⟨?_, hdemand⟩
    rw [hsite]
    exact hnode
  refine lands_generic hruns hd ?_
  rw [hsite]
  exact hcomes.keeps hkeeps hnode hstops

/-- A node has been added on the way, behind the others. -/
structure Adds (c : CallableId) (i : SiteId) (n : Node) (s s' : Store) : Prop where
  furthers : s.Furthers c s'
  allocated : s'.Allocated (.site i)
  site : s'.site i = { s.site i with nodes := (s.site i).nodes.push n }

theorem adds_addNode {s : Store} (hi : s.Allocated (.site i)) (hn : n.demand? = none) :
    Adds c i n s ((addNode i n).run s).2 := by
  rw [addNode_run]
  refine ⟨furthers_push_vacant hi hn, ?_, Store.site_setNodes hi _⟩
  exact Nat.lt_of_lt_of_eq hi Array.size_modify.symm

/-- A closed end gets a demand of its own. -/
theorem adds_closed {s : Store} (hi : s.Allocated (.site i)) (hd : dispatchOf? n = none)
    (hn : n.demand? = some ⟨s.demands.size⟩) : Adds c i n s ((addNode i n).run (demanding s false)).2 := by
  have hfresh : s.Fresh c false n := by
    unfold Store.Fresh
    rw [hd]
  rw [addNode_run]
  refine ⟨furthers_push hi hfresh hn, ?_, Store.site_setNodes (s := demanding s false) hi _⟩
  exact Nat.lt_of_lt_of_eq hi Array.size_modify.symm

/-- A list of shapes gets a new end. -/
theorem adds_shapesEnd {s : Store} (hi : s.Allocated (.site i)) (c : CallableId) (depth limit : Nat) :
    ∃ s₁ last, (do
        if depth + 1 < limit then addNode i (.variadicVacant (depth + 1))
        else addNode i (.variadicGeneric (← Store.newDemand false)) : StoreM NodeId).run s
      = (⟨(s.site i).nodes.size⟩, s₁) ∧ Adds c i last s s₁ := by
  by_cases hdepth : depth + 1 < limit
  · refine ⟨_, _, ?_, adds_addNode hi (rfl : Node.demand? (.variadicVacant (depth + 1)) = none)⟩
    rw [if_pos hdepth]
    rfl
  · refine ⟨_, _, ?_, adds_closed hi rfl (rfl : Node.demand? (.variadicGeneric ⟨s.demands.size⟩) = _)⟩
    rw [if_neg hdepth]
    rfl

/-- A shape is added, and the call takes it. -/
theorem lands_shape {depth : Nat} (hi : m.store.Allocated (.site i))
    (hold : (m.store.site i).nodes[id.index]? = some (.variadicVacant depth))
    (hcomes : ComesBy (m.store.site i).nodes c names id) (entries : List (List GroupEntry)) :
    Lands i c names m.store ((prepareShape getters i id depth names entries caller c).run.run m) := by
  unfold prepareShape
  rw [EvalM.run_store_bind]
  dsimp only
  split
  · exact lands_lastly hi hold rfl (fun demand => ⟨.shapesClosed depth demand, rfl, rfl, trivial⟩) hcomes
  refine lands_bind (fun m => Store.keepsCalls_runMatcher _ c _ _ false m.store) fun matched m₁ _ hm₁ => ?_
  have hi₁ := allocated_of_keepsCalls hm₁ hi
  rw [← site_of_keepsCalls hm₁ i] at hold hcomes ⊢
  obtain ⟨s₂, last, hrun, hadds⟩ := adds_shapesEnd hi₁ c depth (m₁.store.site i).limits.variadicDepth
  rw [EvalM.run_onStore_bind, hrun]
  refine Lands.after hadds.furthers ?_
  obtain ⟨-, hi₂, hsite₂⟩ := hadds
  rw [EvalM.run_onStore_bind, newDispatch_run, EvalM.run_onStore_bind]
  let d := freshDispatch s₂ c matched
  let n : Node := .variadicCase names d ⟨(m₁.store.site i).nodes.size⟩
  have hlt : id.index < (m₁.store.site i).nodes.size := (Array.getElem?_eq_some_iff.1 hold).1
  have hold₂ : (s₂.site i).nodes[id.index]? = some (.variadicVacant depth) := by
    rw [hsite₂]
    dsimp only
    rw [Array.getElem?_push, if_neg (Nat.ne_of_lt hlt)]
    exact hold
  -- The shape takes the place of the old end; the new one stands behind all nodes.
  have hfresh : s₂.Fresh c (s₂.callable c).wantsCaller n := ⟨rfl, rfl, rfl, rfl⟩
  have hfurthers := furthers_set hi₂ hfresh rfl hold₂ rfl
  have hset : setNode (demanding s₂ (s₂.callable c).wantsCaller) i id n
      = (demanding s₂ (s₂.callable c).wantsCaller).setNodes i ((s₂.site i).nodes.setIfInBounds id.index n) :=
    setNode_eq _ _ _ _
  have hnodes : (s₂.site i).nodes.setIfInBounds id.index n
      = Store.extended (m₁.store.site i).nodes #[last] id n := by
    rw [hsite₂]
    rfl
  have hkeeps := Keeps.extended hold (.shaped depth names d ⟨(m₁.store.site i).nodes.size⟩) #[last]
  have hnode : (Store.extended (m₁.store.site i).nodes #[last] id n)[id.index]? = some n := extended_self hold
  rw [hnodes] at hfurthers hset
  have hcomes' := hcomes.keeps hkeeps hnode rfl
  have hstore : ((modify (setNode · i id n) : StoreM Unit).run
      (demanding s₂ (s₂.callable c).wantsCaller)).2 = _ := hset
  dsimp only
  rw [hstore]
  refine Lands.after hfurthers ?_
  generalize Store.extended (m₁.store.site i).nodes #[last] id n = nodes' at hnode hcomes' ⊢
  have hsite := Store.site_setNodes (s := demanding s₂ (s₂.callable c).wantsCaller) hi₂ nodes'
  refine lands_evaluate (n := n) (Nat.lt_of_lt_of_eq hi₂ Array.size_modify.symm) ?_ rfl rfl ?_ _ entries names
  · rw [hsite]
    exact hnode
  · rw [hsite]
    exact hcomes'

theorem suppliedNames_ok {s : Store} {groups : List GroupId}
    (h : Arguments.readGroups (s.site i).args s caller = .ok groups) : suppliedNames s i caller
      = Arguments.flattenedNames (s.site i).args (Arguments.entriesOf s groups) := by
  unfold suppliedNames
  rw [h]

/-- A call that forwards arguments comes to a shape, or adds one, or takes the end of the list. -/
theorem lands_variadic (hi : m.store.Allocated (.site i)) (hcomes : Comes (m.store.site i).nodes c start)
    (getters : Getters σ) (caller : ActivationId) :
    Lands i c (suppliedNames m.store i caller) m.store
      ((prepareVariadic getters i start caller c).run.run m) := by
  unfold prepareVariadic
  rw [EvalM.run_store_bind]
  dsimp only
  rw [EvalM.run_ofExcept_bind]
  cases hgroups : Arguments.readGroups (m.store.site i).args m.store caller with
  | error e => exact .refl c m.store
  | ok groups =>
      dsimp only
      rw [suppliedNames_ok hgroups]
      generalize Arguments.entriesOf m.store groups = entries
      generalize hnames : Arguments.flattenedNames (m.store.site i).args entries = names
      refine lands_bind ((Store.steady_keepsCalls getters).within_hold _) fun _ m₁ _ hm₁ => ?_
      have hi₁ := allocated_of_keepsCalls hm₁ hi
      rw [← site_of_keepsCalls hm₁ i] at hcomes ⊢
      cases hfollow : followShapes (m₁.store.site i).nodes names ((m₁.store.site i).nodes.size + 1) start with
      | error f => exact .refl c m₁.store
      | ok r =>
          obtain ⟨id, n⟩ := r
          have hn := node_of_followShapes hfollow
          have hby : ComesBy (m₁.store.site i).nodes c names id := ⟨start, _, n, hcomes, le_rfl, hfollow⟩
          rw [run_ofFault_bind]
          cases n with
          | variadicCase cached d next =>
              exact lands_evaluate hi₁ hn rfl (names_of_followShapes hfollow) hby _ entries names
          | variadicVacant depth => exact lands_shape hi₁ hn hby entries
          | variadicGeneric demand => exact lands_generic ⟨hn, rfl⟩ rfl hby
          | _ => exact .refl c m₁.store

/-- A link takes the place of an end behind which its handler has been added, with a new end behind that. -/
theorem furthers_link {s s' : Store} (hi : s'.Allocated (.site i)) {depth : Nat}
    (hold : (s'.site i).nodes[id.index]? = some (.vacant depth)) {handler : Node}
    (hhandler : s.Furthers c (s'.setNodes i ((s'.site i).nodes.push handler))) (limit : Nat) :
    ∃ ds tail, (do
        let tail ← if depth + 1 < limit then pure (Node.vacant (depth + 1))
          else Node.generic <$> Store.newDemand false
        let handlerId ← addNode i handler
        let next ← addNode i tail
        return (handlerId, next) : StoreM (NodeId × NodeId)).run s'
      = ((⟨(s'.site i).nodes.size⟩, ⟨(s'.site i).nodes.size + 1⟩),
        ({ s' with demands := ds }).setNodes i ((s'.site i).nodes ++ #[handler, tail]))
      ∧ s.Furthers c (({ s' with demands := ds }).setNodes i (Store.extended (s'.site i).nodes #[handler, tail] id
        (.link c ⟨(s'.site i).nodes.size⟩ ⟨(s'.site i).nodes.size + 1⟩))) := by
  have hlt : id.index < (s'.site i).nodes.size := (Array.getElem?_eq_some_iff.1 hold).1
  have ht : (s'.setNodes i ((s'.site i).nodes.push handler)).Allocated (.site i) :=
    Nat.lt_of_lt_of_eq hi Array.size_modify.symm
  -- The new end stands behind the handler, and then the link in the place of the old one.
  have hset : ∀ (tail : Node) (u : Store),
      Adds c i tail (s'.setNodes i ((s'.site i).nodes.push handler)) u →
      s.Furthers c (u.setNodes i (Store.extended (s'.site i).nodes #[handler, tail] id
        (.link c ⟨(s'.site i).nodes.size⟩ ⟨(s'.site i).nodes.size + 1⟩))) := by
    rintro tail u ⟨hfurthers, hu, hsite⟩
    rw [Store.site_setNodes hi] at hsite
    have hnodes : (u.site i).nodes = ((s'.site i).nodes.push handler).push tail := by
      rw [hsite]
    have hold' : (u.site i).nodes[id.index]? = some (.vacant depth) := by
      rw [hnodes, Array.getElem?_push, Array.size_push, if_neg (by omega), Array.getElem?_push,
        if_neg (Nat.ne_of_lt hlt)]
      exact hold
    have hlink := furthers_set_vacant (n := .link c ⟨(s'.site i).nodes.size⟩ ⟨(s'.site i).nodes.size + 1⟩)
      (c := c) hu rfl hold' rfl
    rw [hnodes] at hlink
    exact (hhandler.trans hfurthers).trans hlink
  by_cases hdepth : depth + 1 < limit
  · refine ⟨s'.demands, .vacant (depth + 1), ?_, ?_⟩
    · rw [if_pos hdepth]
      exact addNodes_run hi handler _
    · have hadds := hset _ _ (adds_addNode ht (rfl : Node.demand? (.vacant (depth + 1)) = none))
      rw [addNode_run, Store.setNodes_setNodes, Store.setNodes_setNodes] at hadds
      exact hadds
  · refine ⟨(demanding s' false).demands, .generic ⟨s'.demands.size⟩, ?_, ?_⟩
    · rw [if_neg hdepth]
      exact addNodes_run (s := demanding s' false) hi handler _
    · have hadds := hset _ _ (adds_closed ht rfl (rfl : Node.demand? (.generic ⟨s'.demands.size⟩) = _))
      have hcomm : demanding (s'.setNodes i ((s'.site i).nodes.push handler)) false
          = (demanding s' false).setNodes i ((s'.site i).nodes.push handler) := rfl
      rw [addNode_run, hcomm, Store.setNodes_setNodes, Store.setNodes_setNodes] at hadds
      exact hadds

/-- The names of arguments are a matter of scopes, and not of nodes. -/
theorem suppliedNames_setNodes {s : Store} (hi : s.Allocated (.site i)) (ds : Array Guard) (nodes : Array Node) :
    suppliedNames (({ s with demands := ds }).setNodes i nodes) i caller = suppliedNames s i caller := by
  have hscopes : s.SameScopes (({ s with demands := ds }).setNodes i nodes) := ⟨rfl, fun _ => rfl, fun _ => rfl, rfl⟩
  have hgroups : ∀ args, Arguments.readGroups args (({ s with demands := ds }).setNodes i nodes) caller
      = Arguments.readGroups args s caller := by
    intro args
    unfold Arguments.readGroups
    rw [hscopes.lookupDynamic]
  unfold suppliedNames
  rw [Store.site_setNodes (s := { s with demands := ds }) hi, hgroups]
  rfl

/-- A link is added for the function, and the call goes through it. -/
theorem lands_link {s : Store} {depth : Nat} {handler : Node} (hi : m.store.Allocated (.site i))
    (hold : (m.store.site i).nodes[id.index]? = some (.vacant depth))
    (hcomes : Comes (m.store.site i).nodes c id)
    (hhandler : s.Furthers c (m.store.setNodes i ((m.store.site i).nodes.push handler))) (limit : Nat)
    (hkind : (∃ d, handler = .fixed d) ∨ (∃ depth, handler = .variadicVacant depth)
      ∧ suppliedNames m.store i caller = names) :
    Lands i c names s ((prepareLink getters i id depth limit caller c handler).run.run m) := by
  obtain ⟨ds, tail, hadd, hfurthers⟩ := furthers_link hi hold hhandler limit
  have hset := setNode_setNodes (s := { m.store with demands := ds }) hi #[handler, tail] id
    (.link c ⟨(m.store.site i).nodes.size⟩ ⟨(m.store.site i).nodes.size + 1⟩)
  have hrun : (prepareLink getters i id depth limit caller c handler).run.run m
      = (prepareHandler getters i ⟨(m.store.site i).nodes.size⟩ caller c handler).run.run
        ⟨({ m.store with demands := ds }).setNodes i (Store.extended (m.store.site i).nodes #[handler, tail] id
          (.link c ⟨(m.store.site i).nodes.size⟩ ⟨(m.store.site i).nodes.size + 1⟩)), m.host⟩ := by
    unfold prepareLink
    rw [EvalM.run_onStore_bind, hadd]
    dsimp only
    rw [EvalM.run_onStore_bind]
    exact congrArg _ (congrArg (Machine.mk · m.host) hset)
  have hlast : handler.asLink = none ∧ handler.asShape = none := by
    rcases hkind with ⟨d, rfl⟩ | ⟨⟨depth, rfl⟩, -⟩ <;> exact ⟨rfl, rfl⟩
  have hcomes' : Comes (Store.extended (m.store.site i).nodes #[handler, tail] id
      (.link c ⟨(m.store.site i).nodes.size⟩ ⟨(m.store.site i).nodes.size + 1⟩)) c ⟨(m.store.site i).nodes.size⟩ :=
    hcomes.link hold hlast.1
  have hnode : (Store.extended (m.store.site i).nodes #[handler, tail] id (.link c ⟨(m.store.site i).nodes.size⟩
      ⟨(m.store.site i).nodes.size + 1⟩))[(m.store.site i).nodes.size]? = some handler := extended_add hold 0
  rw [hrun]
  refine Lands.after hfurthers ?_
  generalize Store.extended (m.store.site i).nodes #[handler, tail] id _ = nodes' at hcomes' hnode ⊢
  have hsite := Store.site_setNodes (s := { m.store with demands := ds }) hi nodes'
  have hi' : (({ m.store with demands := ds }).setNodes i nodes').Allocated (.site i) :=
    Nat.lt_of_lt_of_eq hi Array.size_modify.symm
  rcases hkind with ⟨d, rfl⟩ | ⟨⟨depth, rfl⟩, rfl⟩
  · have hby : ComesBy nodes' c names ⟨(m.store.site i).nodes.size⟩ := hcomes'.by hnode hlast.2
    unfold prepareHandler prepareFixed
    rw [EvalM.run_store_bind]
    refine lands_evaluate (n := .fixed d) hi' ?_ rfl trivial ?_ _ _ _
    · rw [hsite]
      exact hnode
    · rw [hsite]
      exact hby
  · have hvariadic := lands_variadic (m := ⟨({ m.store with demands := ds }).setNodes i nodes', m.host⟩) hi'
      (by rw [hsite]; exact hcomes') getters caller
    rwa [suppliedNames_setNodes hi] at hvariadic

/-- Where the chain ends, a link is added, or the chain is closed. -/
theorem lands_new {depth : Nat} (hi : m.store.Allocated (.site i))
    (hold : (m.store.site i).nodes[id.index]? = some (.vacant depth)) (hcomes : Comes (m.store.site i).nodes c id) :
    Lands i c (suppliedNames m.store i caller) m.store ((prepareNew getters i id depth caller c).run.run m) := by
  have hby : ComesBy (m.store.site i).nodes c (suppliedNames m.store i caller) id := hcomes.by hold rfl
  unfold prepareNew
  rw [EvalM.run_store_bind]
  dsimp only
  rw [EvalM.run_ofExcept_bind]
  cases Arguments.checkNames (m.store.site i).args with
  | error e => exact .refl c m.store
  | ok _ =>
      dsimp only
      split
      · exact lands_lastly hi hold rfl (fun demand => ⟨.closed depth demand, rfl, rfl, trivial⟩) hby
      split
      · rw [pure_bind]
        exact lands_link hi hold hcomes (furthers_push_vacant hi rfl) _ (Or.inr ⟨⟨0, rfl⟩, rfl⟩)
      · generalize suppliedNames m.store i caller = names at hby ⊢
        refine lands_bind (fun m => Store.keepsCalls_runMatcher _ c _ _ false m.store) fun matched m₁ _ hm₁ => ?_
        have hi₁ := allocated_of_keepsCalls hm₁ hi
        rw [← site_of_keepsCalls hm₁ i] at hold hcomes
        have hfresh : m₁.store.Fresh c (m₁.store.callable c).wantsCaller
            (.fixed (freshDispatch m₁.store c matched)) := ⟨rfl, rfl, rfl, rfl⟩
        rw [EvalM.run_bind, newFixed_run]
        exact lands_link (m := ⟨demanding m₁.store (m₁.store.callable c).wantsCaller, m₁.host⟩) hi₁ hold hcomes
          (furthers_push hi₁ hfresh rfl) _ (Or.inl ⟨_, rfl⟩)

/-- **A preparation installs its node, and takes it**, if it does not fail on the way. The node is the one that calls
    of the function, with the names that the arguments have, go through from then on. -/
theorem prepare_lands (hi : m.store.Allocated (.site i)) (getters : Getters σ) (caller : ActivationId)
    (c : CallableId) :
    Lands i c (suppliedNames m.store i caller) m.store ((prepare getters i caller c).run.run m) := by
  unfold prepare
  rw [EvalM.run_store_bind]
  dsimp only
  cases hfollow : follow (m.store.site i).nodes c ((m.store.site i).nodes.size + 1) .root with
  | error f => exact .refl c m.store
  | ok r =>
      obtain ⟨id, n⟩ := r
      have hn := node_of_follow hfollow
      have hcomes : Comes (m.store.site i).nodes c id := ⟨_, n, le_rfl, hfollow⟩
      rw [run_ofFault_bind]
      cases n with
      | vacant depth => exact lands_new hi hn hcomes
      | fixed d =>
          unfold prepareFixed
          rw [EvalM.run_store_bind]
          exact lands_evaluate hi hn rfl trivial (hcomes.by hn rfl) _ _ _
      | generic demand => exact lands_generic ⟨hn, rfl⟩ rfl (hcomes.by hn rfl)
      | variadicGeneric demand => exact lands_generic ⟨hn, rfl⟩ rfl (hcomes.by hn rfl)
      | variadicVacant depth => exact lands_variadic hi hcomes getters caller
      | variadicCase names d next => exact lands_variadic hi hcomes getters caller
      | link callee handler next => exact .refl c m.store

end Chain

end ScopeCall
