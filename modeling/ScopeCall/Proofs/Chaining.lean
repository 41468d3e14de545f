import Mathlib.Data.List.Forall2
import ScopeCall.Proofs.Evolving

/-!
# `ScopeCall.Proofs.Chaining` — chains grow first come, first served

What a chain has cached stays within the limits of its site, without repeats, and nothing of it is lost or
changes place: later calls only add to the ends of lists. Where a call forwards nothing, the functions that
get links are those whose arguments matched first.

## Contents
- **What is cached.** `CachedChain.Within`, `CachedChain.Grows`, and what good order makes of them.
- **One call.** Which function a call may add.
- **Callees.** `calleeOf`: which function a site calls.
- **Histories.** `History`, and `firstCome`.
- **First come.** `cached_of_history`.
-/

namespace ScopeCall

/-- A site that has not been called through, whoever matches its arguments. -/
structure Store.Unused (s : Store) (i : SiteId) : Prop where
  site : s.Allocated (.site i)
  nodes : (s.site i).nodes = #[.vacant 0]

namespace Chain

variable {σ : Type} {i : SiteId} {c : CallableId} {m m' m₀ : Machine σ} {nodes nodes' : Array Node}
  {id last : NodeId} {limits : CacheLimits} {limit : Nat} {owner owner' : Nat → NodeId}
  {args : Arguments} {fits : Prop} {links : List (CallableId × NodeId)}

/-! ## What is cached -/

/-- No more is cached than the limits allow, and nothing twice. -/
structure CachedChain.Within (limits : CacheLimits) (chain : CachedChain) : Prop where
  links : chain.links.length ≤ limits.functionDepth
  callees : chain.callees.Nodup
  signatures : ∀ link ∈ chain.links,
    link.signatures.length ≤ limits.variadicDepth ∧ link.signatures.Nodup

/-- A link that has grown is one for the same function, with its shapes first, in the same order. A full list
    of shapes stays as it is. -/
structure CachedLink.Grows (link link' : CachedLink) : Prop where
  callee : link'.callee = link.callee
  signatures : link.signatures <+: link'.signatures
  full : link.full = true → link'.full = true ∧ link'.signatures = link.signatures

/-- A chain that has grown has its links first, in the same order. A full chain gets no more. -/
structure CachedChain.Grows (chain chain' : CachedChain) : Prop where
  links : ∃ grown more, chain'.links = grown ++ more ∧ List.Forall₂ CachedLink.Grows chain.links grown
  generic : chain.generic = true → chain'.generic = true ∧ chain'.links.length = chain.links.length

theorem Leads.eq_nil {α : Type} {item : Node → Option (α × NodeId)} {as : List α}
    (h : Leads item nodes id as last) {n : Node} (hn : nodes[id.index]? = some n)
    (hend : item n = none) : as = [] := by
  cases h with
  | here => rfl
  | next hm hitem =>
      obtain rfl := Option.some.inj (hn.symm.trans hm)
      rw [hend] at hitem
      cases hitem

theorem LinksTo.cached_links (h : LinksTo limit nodes links last) :
    (cached nodes).links = links.map (cachedLink nodes) := by
  obtain ⟨n, -, -, hread⟩ := h.itemsFrom
  unfold cached
  rw [hread]

theorem LinksTo.callees (h : LinksTo limit nodes links last) :
    (cached nodes).callees = links.map Prod.fst := by
  unfold CachedChain.callees
  rw [h.cached_links, List.map_map]
  rfl

theorem LinksTo.generic (h : LinksTo limit nodes links last) {n : Node}
    (hn : nodes[last.index]? = some n) : (cached nodes).generic = n.isGeneric := by
  obtain ⟨n', hn', -, hread⟩ := h.itemsFrom
  obtain rfl := Option.some.inj (hn'.symm.trans hn)
  unfold cached
  rw [hread]
  rfl

theorem ShapesTo.cachedLink_eq {handler : NodeId} {names : List SuppliedNames}
    (h : ShapesTo limit nodes handler names last) {n : Node} (hn : nodes[last.index]? = some n)
    (c : CallableId) : cachedLink nodes (c, handler) = ⟨c, names, n.isVariadicGeneric⟩ := by
  obtain ⟨n', hn', -, hread⟩ := h.itemsFrom
  obtain rfl := Option.some.inj (hn'.symm.trans hn)
  unfold cachedLink
  rw [hread]
  rfl

namespace Arranged

/-- Each link of a chain has a list of shapes behind it. -/
theorem shapesTo (h : Arranged limits nodes owner) (hlinks : LinksTo limit nodes links last)
    {link : CallableId × NodeId} (hlink : link ∈ links) :
    ∃ names last', ShapesTo limits.variadicDepth nodes link.2 names last' := by
  obtain ⟨k, next, hk⟩ := hlinks.leads.exists_link hlink
  exact (h.shapes k link.1 link.2 next hk).2

/-- **Nodes in good order stay within the limits.** -/
theorem within (h : Arranged limits nodes owner) : (cached nodes).Within limits := by
  obtain ⟨links, last, hlinks⟩ := h.links
  refine ⟨?_, ?_, fun cachedLink hin => ?_⟩
  · rw [hlinks.cached_links, List.length_map]
    exact hlinks.bounded
  · rw [hlinks.callees]
    exact hlinks.distinct
  · rw [hlinks.cached_links] at hin
    obtain ⟨link, hlink, rfl⟩ := List.mem_map.1 hin
    obtain ⟨names, last', hto⟩ := h.shapesTo hlinks hlink
    obtain ⟨n, hn, -⟩ := hto.ends
    rw [hto.cachedLink_eq hn link.1]
    exact ⟨hto.bounded, hto.distinct⟩

/-- **A chain is full when it has as many links as it may have.** -/
theorem generic_iff (h : Arranged limits nodes owner) (hsome : 1 ≤ limits.functionDepth) :
    (cached nodes).generic = true ↔ (cached nodes).links.length = limits.functionDepth := by
  obtain ⟨links, last, hlinks⟩ := h.links
  obtain ⟨n, hn, hcloses⟩ := hlinks.ends
  have hbounded := hlinks.bounded
  rw [hlinks.generic hn, hlinks.cached_links, List.length_map]
  cases n with
  | vacant depth =>
      obtain ⟨-, hroom⟩ := hcloses
      exact ⟨fun hgeneric => (by cases hgeneric), fun hfull => (by omega)⟩
  | generic demand => exact ⟨fun _ => Nat.le_antisymm hbounded hcloses, fun _ => rfl⟩
  | _ => exact hcloses.elim

/-- The links there were, and those behind them. -/
theorem exists_more (h' : Arranged limits nodes' owner') (hkeeps : Keeps nodes nodes')
    (hlinks : LinksTo limits.functionDepth nodes links last) :
    ∃ more last', LinksTo limits.functionDepth nodes' (links ++ more) last'
      ∧ Leads Node.asLink nodes' last more last' := by
  obtain ⟨links', last', hlinks'⟩ := h'.links
  obtain ⟨n, hn, hcloses⟩ := hlinks'.ends
  obtain ⟨more, rfl, hmore⟩ := (hlinks.leads.keeps_links hkeeps).more hlinks'.leads hn hcloses.asLink
  exact ⟨more, last', hlinks', hmore⟩

/-- What is behind a link grows where it ends. -/
theorem grows_link (h : Arranged limits nodes owner) (h' : Arranged limits nodes' owner')
    (hkeeps : Keeps nodes nodes') (hlinks : LinksTo limits.functionDepth nodes links last)
    {link : CallableId × NodeId} (hlink : link ∈ links) :
    (cachedLink nodes link).Grows (cachedLink nodes' link) := by
  obtain ⟨k, next, hk⟩ := hlinks.leads.exists_link hlink
  obtain ⟨link', hk', hbecomes⟩ := hkeeps k _ hk
  cases hbecomes
  obtain ⟨-, names, last₁, hto⟩ := h.shapes k link.1 link.2 next hk
  obtain ⟨-, names', last₂, hto'⟩ := h'.shapes k link.1 link.2 next hk'
  obtain ⟨n, hn, -⟩ := hto.ends
  obtain ⟨n', hn', hcloses'⟩ := hto'.ends
  obtain ⟨more, rfl, hmore⟩ := (hto.leads.keeps_shapes hkeeps).more hto'.leads hn' hcloses'.asShape
  rw [hto.cachedLink_eq hn link.1, hto'.cachedLink_eq hn' link.1]
  refine ⟨rfl, List.prefix_append names more, fun hfull => ?_⟩
  dsimp only at hfull ⊢
  cases n with
  | variadicGeneric demand =>
      obtain ⟨n'', hn'', hbecomes⟩ := hkeeps _ _ hn
      cases hbecomes
      obtain rfl := hmore.eq_nil hn'' rfl
      cases hmore
      obtain rfl := Option.some.inj (hn'.symm.trans hn'')
      exact ⟨rfl, List.append_nil names⟩
  | _ => cases hfull

/-- **A chain grows where it ends.** -/
theorem grows (h : Arranged limits nodes owner) (h' : Arranged limits nodes' owner')
    (hkeeps : Keeps nodes nodes') : (cached nodes).Grows (cached nodes') := by
  obtain ⟨links, last, hlinks⟩ := h.links
  obtain ⟨more, last', hlinks', hmore⟩ := h'.exists_more hkeeps hlinks
  refine ⟨⟨links.map (cachedLink nodes'), more.map (cachedLink nodes'), ?_, ?_⟩, fun hgeneric => ?_⟩
  · rw [hlinks'.cached_links, List.map_append]
  · rw [hlinks.cached_links, List.forall₂_map_left_iff, List.forall₂_map_right_iff, List.forall₂_same]
    exact fun link hlink => h.grows_link h' hkeeps hlinks hlink
  · obtain ⟨n, hn, -⟩ := hlinks.ends
    rw [hlinks.generic hn] at hgeneric
    cases n with
    | generic demand =>
        obtain ⟨n', hn', hbecomes⟩ := hkeeps _ _ hn
        cases hbecomes
        obtain rfl := hmore.eq_nil hn' rfl
        cases hmore
        rw [hlinks'.generic hn', hlinks'.cached_links, hlinks.cached_links, List.length_map,
          List.length_map, List.append_nil]
        exact ⟨rfl, rfl⟩
    | _ => cases hgeneric

end Arranged

/-! ## One call -/

/-- A node that is no link stays none where another node is replaced by none. -/
theorem extended_asLink {old n m : Node} {extra : Array Node} {k : Nat}
    (hold : nodes[id.index]? = some old) (hn : n.asLink = none) (hm : nodes[k]? = some m)
    (hend : m.asLink = none) : ∃ m', (Store.extended nodes extra id n)[k]? = some m' ∧ m'.asLink = none := by
  by_cases hk : k = id.index
  · subst hk
    exact ⟨n, extended_self hold, hn⟩
  · exact ⟨m, (extended_of_lt hold hk (Array.getElem?_eq_some_iff.1 hm).1).trans hm, hend⟩

/-- A change adds a link, or makes no node a link. -/
theorem NodeStep.link_or (h : NodeStep args limits c fits nodes nodes') :
    (∃ (id : NodeId) (depth : Nat) (handler tail : Node),
      follow nodes c (nodes.size + 1) .root = .ok (id, .vacant depth) ∧ depth < limits.functionDepth
        ∧ handler.Handles args c fits ∧ tail.ClosesLinks limits.functionDepth (depth + 1)
        ∧ nodes' = Store.extended nodes #[handler, tail] id (.link c ⟨nodes.size⟩ ⟨nodes.size + 1⟩))
      ∨ ∀ (k : Nat) (m : Node), nodes[k]? = some m → m.asLink = none →
        ∃ m', nodes'[k]? = some m' ∧ m'.asLink = none := by
  cases h with
  | link hfollow hroom hhandler htail =>
      exact Or.inl ⟨_, _, _, _, hfollow, hroom, hhandler, htail, rfl⟩
  | close demand hfollow => exact Or.inr fun k m => extended_asLink (node_of_follow hfollow) rfl
  | closeShapes demand _ hfollow =>
      exact Or.inr fun k m => extended_asLink (node_of_followShapes hfollow) rfl
  | shape _ hfollow => exact Or.inr fun k m => extended_asLink (node_of_followShapes hfollow) rfl
  | @redispatch id n d d' hn hd _ =>
      refine Or.inr fun k m hm hend => ?_
      rw [Array.getElem?_modify]
      by_cases hk : id.index = k
      · subst hk
        obtain rfl := Option.some.inj (hn.symm.trans hm)
        rw [if_pos rfl, hn]
        refine ⟨_, rfl, ?_⟩
        rcases dispatchOf?_eq_some hd with rfl | ⟨names, next, rfl⟩ <;> rfl
      · rw [if_neg hk]
        exact ⟨m, hm, hend⟩

/-- The functions that have links after a call of one: those that had links before, and perhaps that one
    after them. -/
structure Calls (args : Arguments) (limits : CacheLimits) (c : CallableId) (fits : Prop)
    (callees callees' : List CallableId) : Prop where
  new : callees' = callees ++ [c]
  none : c ∉ callees
  room : callees.length < limits.functionDepth
  fits : Arguments.forwardsVariadic args = false → fits

namespace Arranged

theorem callees_of_step (h : Arranged limits nodes owner)
    (hstep : NodeStep args limits c fits nodes nodes') :
    (cached nodes').callees = (cached nodes).callees
      ∨ Calls args limits c fits (cached nodes).callees (cached nodes').callees := by
  obtain ⟨links, last, hlinks⟩ := h.links
  rcases hstep.link_or with ⟨id, depth, handler, tail, hfollow, hroom, hhandler, htail, rfl⟩ | hnone
  · obtain ⟨hin, -, rfl⟩ := h.follow_vacant hlinks hfollow
    have hgrown := (h.link hlinks hfollow hroom hhandler htail).1
    rw [hlinks.callees, hgrown.callees, List.map_append]
    refine Or.inr ⟨rfl, hin, ?_, fun hforwards => ?_⟩
    · rw [List.length_map]
      exact hroom
    · cases handler with
      | fixed d => exact hhandler.2.2
      | variadicVacant depth => exact absurd (hforwards.symm.trans hhandler.2) Bool.false_ne_true
      | _ => exact hhandler.elim
  · obtain ⟨owner', h'⟩ := h.step hstep
    obtain ⟨more, last', hlinks', hmore⟩ := h'.exists_more hstep.keeps hlinks
    obtain ⟨n, hn, hcloses⟩ := hlinks.ends
    obtain ⟨n', hn', hend⟩ := hnone _ n hn hcloses.asLink
    obtain rfl := hmore.eq_nil hn' hend
    rw [hlinks'.callees, hlinks.callees, List.append_nil]
    exact Or.inl rfl

/-- **A call adds no more than a link for its own function**, and that only if there is none and there is
    room for one. -/
theorem callees_of_steps (h : Arranged limits nodes owner)
    (hsteps : Relation.ReflTransGen (NodeStep args limits c fits) nodes nodes') :
    (∃ owner', Arranged limits nodes' owner')
      ∧ ((cached nodes').callees = (cached nodes).callees
        ∨ Calls args limits c fits (cached nodes).callees (cached nodes').callees) := by
  induction hsteps with
  | refl => exact ⟨⟨owner, h⟩, Or.inl rfl⟩
  | tail _ hstep ih =>
      obtain ⟨⟨owner₁, h₁⟩, hsofar⟩ := ih
      refine ⟨h₁.step hstep, ?_⟩
      rcases h₁.callees_of_step hstep with hsame | hadds
      · rw [hsame]
        exact hsofar
      · rcases hsofar with hsame | hadded
        · rw [← hsame]
          exact Or.inr hadds
        · -- The function has a link already.
          refine absurd ?_ hadds.none
          rw [hadded.new]
          exact List.mem_append_right _ (List.mem_singleton_self c)

/-- A function that has no link is followed to the end of the chain. -/
theorem follow_of_not_mem (h : Arranged limits nodes owner) (hnone : c ∉ (cached nodes).callees)
    (hroom : (cached nodes).callees.length < limits.functionDepth) : ∃ last depth,
      Chain.follow nodes c (nodes.size + 1) .root = .ok (last, .vacant depth)
        ∧ depth < limits.functionDepth := by
  obtain ⟨links, last, hlinks⟩ := h.links
  obtain ⟨n, hn, hcloses⟩ := hlinks.ends
  rw [hlinks.callees] at hnone hroom
  rw [List.length_map] at hroom
  have hfollow := hlinks.leads.follow_of_not_mem hn hcloses.asLink hnone (hlinks.leads.length_lt hn)
  cases n with
  | vacant depth => exact ⟨last, depth, hfollow, hcloses.1 ▸ hroom⟩
  | generic demand => exact absurd hroom (Nat.not_lt_of_le hcloses)
  | _ => exact hcloses.elim

/-- A link that stands where the chain ended is one of the chain. -/
theorem mem_callees_of_link (h : Arranged limits nodes owner) (h' : Arranged limits nodes' owner')
    (hkeeps : Keeps nodes nodes') {fuel depth : Nat}
    (hfollow : Chain.follow nodes c fuel .root = .ok (id, .vacant depth)) {handler next : NodeId}
    (hlink : nodes'[id.index]? = some (.link c handler next)) : c ∈ (cached nodes').callees := by
  obtain ⟨links, last, hlinks⟩ := h.links
  obtain ⟨-, rfl, -⟩ := h.follow_vacant hlinks hfollow
  obtain ⟨more, last', hlinks', hmore⟩ := h'.exists_more hkeeps hlinks
  rw [hlinks'.callees, List.map_append]
  refine List.mem_append_right _ ?_
  cases hmore with
  | here =>
      obtain ⟨n, hn, hcloses⟩ := hlinks'.ends
      obtain rfl := Option.some.inj (hn.symm.trans hlink)
      exact hcloses.elim
  | next hm hitem =>
      obtain rfl := Option.some.inj (hm.symm.trans hlink)
      obtain ⟨rfl, -⟩ := Prod.mk.inj (Option.some.inj hitem)
      exact List.mem_cons_self

end Arranged

/-! ## The function that a site calls -/

/-- The function that a value is, once an active binding has been run. It is held while it is called. -/
def functionOf (getters : Getters σ) (v : Value) : EvalM σ CallableId := do
  match ← EvalM.force getters v with
  | .function c =>
    EvalM.hold [.function c]
    return c
  | v => throw (.notCallable v.typeName)

/-- The function that a call site calls from a scope. -/
def calleeOf (getters : Getters σ) (i : SiteId) (caller : ActivationId) : EvalM σ CallableId := do
  match ((← EvalM.store).site i).callee with
  | .read cache =>
    let v ← EvalM.readOrError getters cache caller
    functionOf getters v
  | .value v => functionOf getters v

/-- **A call site calls the function that its callee evaluates to.** -/
theorem executeSite_eq (getters : Getters σ) (i : SiteId) (caller : ActivationId) :
    executeSite getters i caller = calleeOf getters i caller >>= execute getters i caller := by
  have hcall : ∀ v, functionOf getters v >>= execute getters i caller = (do
      match ← EvalM.force getters v with
      | .function c =>
        EvalM.hold [.function c]
        execute getters i caller c
      | v => throw (.notCallable v.typeName)) := by
    intro v
    unfold functionOf
    rw [bind_assoc]
    refine congrArg (EvalM.force getters v >>= ·) (funext fun v => ?_)
    cases v <;> rfl
  unfold executeSite calleeOf
  rw [bind_assoc]
  refine congrArg (EvalM.store >>= ·) (funext fun s => ?_)
  cases (s.site i).callee with
  | read cache =>
      dsimp only
      rw [bind_assoc]
      exact congrArg (EvalM.readOrError getters cache caller >>= ·) (funext fun v => (hcall v).symm)
  | value v =>
      rw [hcall]
      rfl

theorem functionOf_within {getters : Getters σ} {R : Store → Store → Prop} (h : EvalM.Steady getters R)
    (v : Value) :
    EvalM.Within R (functionOf getters v) := by
  unfold functionOf
  refine h.bind (h.within_force v) fun v => ?_
  cases v with
  | function c => exact h.bind (h.within_hold _) fun _ => h.of_pure c
  | _ => exact h.of_result (.error _)

theorem calleeOf_within {getters : Getters σ} {R : Store → Store → Prop} (h : EvalM.Steady getters R)
    (i : SiteId) (caller : ActivationId) : EvalM.Within R (calleeOf getters i caller) := by
  unfold calleeOf
  refine h.bind (fun m => h.refl m.store) fun s => ?_
  cases (s.site i).callee with
  | read cache => exact h.bind (h.within_readOrError cache caller) (functionOf_within h)
  | value v => exact functionOf_within h v

/-! ## Histories -/

/-- The calls through a site since some moment, each with its function and whether the arguments matched its
    formals. Between calls, anything may happen that leaves the site alone; calls may fail, and a call that a
    callee makes while it runs is one that comes later. -/
inductive History (i : SiteId) (m₀ : Machine σ) : List (CallableId × Bool) → Machine σ → Prop
  | start : History i m₀ [] m₀
  | call {calls : List (CallableId × Bool)} {m : Machine σ} (h : History i m₀ calls m)
      (getters : Getters σ) (caller : ActivationId) (c : CallableId) :
      History i m₀ (calls ++ [(c, argumentsMatch m.store i c)]) ((execute getters i caller c).run.run m).2
  | meanwhile {calls : List (CallableId × Bool)} {m m' : Machine σ} (h : History i m₀ calls m)
      (hm : m.store.Meanwhile i m'.store) : History i m₀ calls m'

/-- A call of whatever function the site's own callee evaluates to is a call, or comes to nothing before. -/
theorem History.executeSite {calls : List (CallableId × Bool)} (h : History i m₀ calls m)
    (getters : Getters σ) (caller : ActivationId) :
    ∃ more, History i m₀ (calls ++ more) ((Chain.executeSite getters i caller).run.run m).2 := by
  have hcallee := calleeOf_within (EvalM.steady_meanwhile getters i) i caller m
  rw [executeSite_eq, EvalM.run_bind]
  generalize (calleeOf getters i caller).run.run m = result at hcallee ⊢
  rcases result with ⟨e | c, m₁⟩
  · exact ⟨[], (List.append_nil calls).symm ▸ h.meanwhile hcallee⟩
  · exact ⟨_, (h.meanwhile hcallee).call getters caller c⟩

/-- The functions whose arguments matched, in the order of their first such calls. -/
def firstCome (calls : List (CallableId × Bool)) : List CallableId :=
  ((calls.filter (·.2)).map (·.1)).eraseDups

theorem firstCome_append (calls : List (CallableId × Bool)) (c : CallableId) (fits : Bool) :
    firstCome (calls ++ [(c, fits)])
      = if fits = true ∧ c ∉ firstCome calls then firstCome calls ++ [c] else firstCome calls := by
  unfold firstCome
  rw [List.filter_append, List.map_append]
  cases fits with
  | false =>
      rw [if_neg fun h => Bool.false_ne_true h.1]
      exact congrArg List.eraseDups (List.append_nil _)
  | true =>
      have hone : ([(c, true)].filter (·.2)).map (·.1) = [c] := rfl
      rw [hone, List.eraseDups_append]
      generalize (calls.filter (·.2)).map (·.1) = before
      by_cases hin : c ∈ before
      · have hgone : [c].removeAll before = [] := by simp [List.removeAll, hin]
        rw [if_neg fun h => h.2 (List.mem_eraseDups.2 hin), hgone]
        exact List.append_nil _
      · have hstays : [c].removeAll before = [c] := by simp [List.removeAll, hin]
        rw [if_pos ⟨rfl, fun h => hin (List.mem_eraseDups.1 h)⟩, hstays]
        rfl

/-- A site with such arguments and limits, whose nodes are in good order. -/
structure InOrder (i : SiteId) (args : Arguments) (limits : CacheLimits) (s : Store) : Prop where
  made : s.Allocated (.site i)
  hasArgs : (s.site i).args = args
  hasLimits : (s.site i).limits = limits
  arranged : ∃ owner, Arranged limits (s.site i).nodes owner

theorem inOrder_of_unused {s : Store} (h : s.Unused i) :
    InOrder i (s.site i).args (s.site i).limits s := by
  refine ⟨h.site, rfl, rfl, fun _ => .root, ?_⟩
  rw [h.nodes]
  exact arranged_new _ _

/-- **A call leaves the nodes in good order and keeps what there is.** -/
theorem InOrder.execute (h : InOrder i args limits m.store) (getters : Getters σ) (caller : ActivationId)
    (c : CallableId) : InOrder i args limits ((Chain.execute getters i caller c).run.run m).2.store
      ∧ Keeps (m.store.site i).nodes
        (((Chain.execute getters i caller c).run.run m).2.store.site i).nodes := by
  obtain ⟨hi, hargs, hlimits, owner, harranged⟩ := h
  have hevolves := evolves_execute getters hi hargs hlimits caller c
  refine ⟨⟨hevolves.allocated hi, ?_, ?_, (harranged.callees_of_steps hevolves.nodes).1⟩,
    keeps_of_steps hevolves.nodes⟩
  · rw [hevolves.site]
    exact hargs
  · rw [hevolves.site]
    exact hlimits

/-- **So does a history.** -/
theorem History.inOrder {calls : List (CallableId × Bool)} (hcalls : History i m₀ calls m)
    (h : InOrder i args limits m₀.store) :
    InOrder i args limits m.store ∧ Keeps (m₀.store.site i).nodes (m.store.site i).nodes := by
  induction hcalls with
  | start => exact ⟨h, .refl _⟩
  | call _ getters caller c ih =>
      obtain ⟨hafter, hkeeps⟩ := ih.1.execute getters caller c
      exact ⟨hafter, ih.2.trans hkeeps⟩
  | meanwhile _ hm ih =>
      obtain ⟨⟨hi, hargs, hlimits, harranged⟩, hkeeps⟩ := ih
      rw [hm.site]
      refine ⟨⟨Nat.lt_of_lt_of_le hi hm.sites, ?_, ?_, ?_⟩, hkeeps⟩
      · rw [hm.site]
        exact hargs
      · rw [hm.site]
        exact hlimits
      · rw [hm.site]
        exact harranged

/-- **One more call.** Without forwards, a call adds a link just when the arguments match, the function has none
    and there is room. -/
theorem InOrder.callees_execute (h : InOrder i args limits m.store)
    (hforwards : Arguments.forwardsVariadic args = false) (getters : Getters σ) (caller : ActivationId)
    (c : CallableId) :
    (cached (((Chain.execute getters i caller c).run.run m).2.store.site i).nodes).callees
      = if argumentsMatch m.store i c = true ∧ c ∉ (cached (m.store.site i).nodes).callees
          ∧ (cached (m.store.site i).nodes).callees.length < limits.functionDepth
        then (cached (m.store.site i).nodes).callees ++ [c] else (cached (m.store.site i).nodes).callees := by
  obtain ⟨hi, hargs, hlimits, owner, harranged⟩ := h
  have hevolves := evolves_execute getters hi hargs hlimits caller c
  obtain ⟨⟨owner', harranged'⟩, hcallees⟩ := harranged.callees_of_steps hevolves.nodes
  split
  · rename_i hadds
    obtain ⟨hmatch, hnone, hroom⟩ := hadds
    -- If nothing had been added, the link that the call leaves would have been there before.
    refine hcallees.elim (fun hsame => absurd ?_ hnone) fun hnew => hnew.new
    obtain ⟨last, depth, hfollow, hdepth⟩ := harranged.follow_of_not_mem hnone hroom
    obtain ⟨handler, next, hlink⟩ :=
      links_execute getters hi hargs hlimits caller hforwards hmatch hfollow hdepth
    rw [← hsame]
    exact harranged.mem_callees_of_link harranged' (keeps_of_steps hevolves.nodes) hfollow hlink
  · rename_i hadds
    exact hcallees.elim id fun hnew => absurd ⟨hnew.fits hforwards, hnew.none, hnew.room⟩ hadds

/-- **First come, first served.** -/
theorem History.callees {calls : List (CallableId × Bool)} (hcalls : History i m₀ calls m)
    (h : InOrder i args limits m₀.store) (hnew : (m₀.store.site i).nodes = #[.vacant 0])
    (hforwards : Arguments.forwardsVariadic args = false) :
    (cached (m.store.site i).nodes).callees = (firstCome calls).take limits.functionDepth := by
  induction hcalls with
  | start =>
      rw [hnew]
      exact List.take_nil.symm
  | @call calls m hbefore getters caller c ih =>
      rw [(hbefore.inOrder h).1.callees_execute hforwards getters caller c, firstCome_append, ih]
      -- What is cached is the first of these functions; whether one more fits is a matter of their number.
      generalize firstCome calls = before
      by_cases hroom : before.length < limits.functionDepth
      · rw [List.take_of_length_le (Nat.le_of_lt hroom)]
        by_cases hadds : argumentsMatch m.store i c = true ∧ c ∉ before
        · rw [if_pos hadds, if_pos ⟨hadds.1, hadds.2, hroom⟩, List.take_of_length_le]
          rw [List.length_append]
          exact hroom
        · rw [if_neg hadds, if_neg fun hall => hadds ⟨hall.1, hall.2.1⟩,
            List.take_of_length_le (Nat.le_of_lt hroom)]
      · have hfull : limits.functionDepth ≤ before.length := Nat.le_of_not_lt hroom
        rw [if_neg fun hall => ?_]
        · split
          · exact (List.take_append_of_le_length hfull).symm
          · rfl
        · have hlength := hall.2.2
          rw [List.length_take_of_le hfull] at hlength
          exact Nat.lt_irrefl _ hlength
  | meanwhile _ hm ih =>
      rw [hm.site]
      exact ih

/-! ## First come -/

/-- A store with three functions, the first without formals, and a site with one argument and room for one
    link. -/
def narrowSite : Store :=
  { Store.new ["f", "g", "h", "x"] with
    callables := #[
      { name := ⟨2⟩, label := "f", formals := []
        wantsCaller := false, wantsDedicatedCopy := false, kind := .intrinsic ⟨0⟩ },
      { name := ⟨3⟩, label := "g", formals := [{ name := ⟨5⟩ }]
        wantsCaller := false, wantsDedicatedCopy := false, kind := .intrinsic ⟨0⟩ },
      { name := ⟨4⟩, label := "h", formals := [{ name := ⟨5⟩ }]
        wantsCaller := false, wantsDedicatedCopy := false, kind := .intrinsic ⟨0⟩ }]
    sites := #[{ callee := .value (.function ⟨0⟩), args := [{ expr := .const (.int 1) }]
                 limits := { functionDepth := 1 } }] }

/-- A call of one of the functions. -/
def callNarrow (m : Machine Unit) (c : CallableId) : Machine Unit :=
  ((execute zeroGetters ⟨0⟩ ⟨0⟩ c).run.run m).2

end Chain

end ScopeCall
