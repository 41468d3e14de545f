import Mathlib.Algebra.Order.BigOperators.Group.List
import Mathlib.Tactic.Ring
import ScopeCall.Proofs.Assigning

/-!
# `ScopeCall.Proofs.Dispatching` — every call finds its node

Nodes are replaced in place, while other nodes go on referring to their places. Whatever calls there have been, what
a node refers to is a later node of the right kind, and a site has no more nodes than its limits allow. So
following the nodes ends within as many steps as there are nodes, and no call is ever sent to a node that is not
there.

## Contents
- **References.** `Node.Refers`, which holds of all nodes that are assigned.
- **Following.** Fuel beyond the number of nodes makes no difference.
- **Room.** `Chain.Filled`: there are no more nodes than what is cached accounts for.
- **Faults.** `EvalError.FoundNodes`: transfer of control looks for no node.
- **Dispatch.** `dispatch_of_history`.
-/

namespace ScopeCall

/-! ## References -/

/-- A node of the chain itself: a link, or an end. -/
def Node.InChain : Node → Prop
  | .vacant _ | .link .. | .generic _ => True
  | _ => False

/-- A node of a list of shapes. -/
def Node.InShapes : Node → Prop
  | .variadicVacant _ | .variadicCase .. | .variadicGeneric _ => True
  | _ => False

/-- A node behind a link: a callee, or the start of a list of shapes. -/
def Node.BehindLink : Node → Prop
  | .fixed _ => True
  | n        => n.InShapes

/-- A later place, that has a node of some kind. -/
def NodeId.Later (nodes : Array Node) (k : Nat) (kind : Node → Prop) (id : NodeId) : Prop :=
  k < id.index ∧ ∃ n, nodes[id.index]? = some n ∧ kind n

/-- Each place that a node refers to is a later one, and has a node of the right kind. -/
def Node.Refers (nodes : Array Node) (k : Nat) : Node → Prop
  | .link _ handler next     => handler.Later nodes k Node.BehindLink ∧ next.Later nodes k Node.InChain
  | .variadicCase _ _ next   => next.Later nodes k Node.InShapes
  | _                        => True

namespace Chain

variable {σ : Type} {nodes nodes' extra : Array Node} {owner : Nat → Option CallableId} {mark : Nat → NodeId}
  {args : Arguments} {limits : CacheLimits} {c : CallableId} {id : NodeId} {fits : Prop} {old n : Node}
  {i : SiteId} {m m₀ : Machine σ} {links : List (CallableId × NodeId)} {last : NodeId}

section Belongs

variable {size k : Nat}

/-- A place that is for a function has a node that calls of it go through. -/
theorem behindLink_of_belongs (h : n.Belongs args size owner k) (howner : owner k = some c) : n.BehindLink := by
  cases n with
  | link callee handler next => exact absurd (howner.symm.trans h.1) (by simp)
  | vacant depth => exact absurd (howner.symm.trans h) (by simp)
  | generic demand => exact absurd (howner.symm.trans h) (by simp)
  | _ => trivial

/-- Where arguments are forwarded, that is one of a list of shapes. -/
theorem inShapes_of_belongs (h : n.Belongs args size owner k) (howner : owner k = some c)
    (hforwards : Arguments.forwardsVariadic args = true) : n.InShapes := by
  have hbehind := behindLink_of_belongs h howner
  cases n with
  | fixed d => exact absurd (hforwards.symm.trans h.2) (by simp)
  | _ => exact hbehind

/-- A place that is for no function has a node of the chain. -/
theorem inChain_of_belongs (h : n.Belongs args size owner k) (howner : owner k = none) : n.InChain := by
  cases n with
  | fixed d => exact absurd (howner.symm.trans h.1) (by simp)
  | variadicCase names d next => exact absurd (howner.symm.trans h.1) (by simp)
  | variadicVacant depth => exact absurd howner h.1
  | variadicGeneric demand => exact absurd howner h.1
  | _ => trivial

end Belongs

/-- **What a node refers to is a later node of the right kind**. -/
theorem Assigned.refers (h : Assigned args nodes owner) {k : Nat} (hn : nodes[k]? = some n) : n.Refers nodes k := by
  have hlater : ∀ {id : NodeId} {made : Option CallableId} {kind : Node → Prop},
      id.Behind nodes.size owner k made →
      (∀ n : Node, n.Belongs args nodes.size owner id.index → owner id.index = made → kind n) →
      id.Later nodes k kind := by
    rintro id made kind ⟨hlt, hin, hmade⟩ hkind
    obtain ⟨n, hn⟩ : ∃ n, nodes[id.index]? = some n := ⟨_, Array.getElem?_eq_getElem hin⟩
    exact ⟨hlt, n, hn, hkind n (h.belongs _ _ hn) hmade⟩
  have hbelongs := h.belongs _ _ hn
  cases n with
  | link callee handler next =>
      obtain ⟨-, hhandler, hnext⟩ := hbelongs
      exact ⟨hlater hhandler fun _ => behindLink_of_belongs, hlater hnext fun _ => inChain_of_belongs⟩
  | variadicCase names d next =>
      obtain ⟨-, hforwards, hnext⟩ := hbelongs
      exact hlater hnext fun _ hn hmade => inShapes_of_belongs hn hmade hforwards
  | _ => trivial

/-! ## Following -/

theorem follow_mono {fuel fuel' : Nat} {r : NodeId × Node} (h : follow nodes c fuel id = .ok r)
    (hle : fuel ≤ fuel') : follow nodes c fuel' id = .ok r := by
  induction fuel generalizing fuel' id with
  | zero => cases h
  | succ fuel ih =>
      obtain ⟨fuel', rfl⟩ : ∃ k, fuel' = k + 1 := ⟨fuel' - 1, by omega⟩
      obtain ⟨n, -, hn, -⟩ := exists_of_follow h
      rw [follow_succ c fuel hn] at h
      rw [follow_succ c fuel' hn]
      cases n with
      | link callee handler next => exact ih h (Nat.le_of_succ_le_succ hle)
      | _ => exact h

theorem followShapes_mono {names : SuppliedNames} {fuel fuel' : Nat} {r : NodeId × Node}
    (h : followShapes nodes names fuel id = .ok r) (hle : fuel ≤ fuel') :
    followShapes nodes names fuel' id = .ok r := by
  induction fuel generalizing fuel' id with
  | zero => cases h
  | succ fuel ih =>
      obtain ⟨fuel', rfl⟩ : ∃ k, fuel' = k + 1 := ⟨fuel' - 1, by omega⟩
      obtain ⟨n, -, hn, -⟩ := exists_of_followShapes h
      rw [followShapes_succ names fuel hn] at h
      rw [followShapes_succ names fuel' hn]
      cases n with
      | variadicCase cached d next =>
          dsimp only at h ⊢
          split
          · rwa [if_pos ‹_›] at h
          · rw [if_neg ‹_›] at h
            exact ih h (Nat.le_of_succ_le_succ hle)
      | _ => exact h

/-- Past the last node there is nothing to read. -/
theorem handlerShape_past (hid : nodes.size ≤ id.index) (s : Store) (fuel : Nat) (link : LinkShape) :
    handlerShape s nodes fuel id link = link := by
  cases fuel with
  | zero => rfl
  | succ fuel =>
      unfold handlerShape
      rw [Array.getElem?_eq_none hid]

theorem shapeFrom_past (hid : nodes.size ≤ id.index) (s : Store) (fuel : Nat) :
    shapeFrom s nodes fuel id = ⟨[], false⟩ := by
  cases fuel with
  | zero => rfl
  | succ fuel =>
      unfold shapeFrom
      rw [Array.getElem?_eq_none hid]

section Fuel

variable (h : ∀ (k : Nat) (n : Node), nodes[k]? = some n → n.Refers nodes k) (s : Store) {fuel fuel' : Nat}
  (hfuel : nodes.size ≤ fuel + id.index) (hfuel' : nodes.size ≤ fuel' + id.index)

include h hfuel hfuel'

/-- Reading off what is behind a link takes no more steps than there are nodes. -/
theorem handlerShape_fuel (link : LinkShape) :
    handlerShape s nodes fuel id link = handlerShape s nodes fuel' id link := by
  -- Each step reads a later place, so fuel and place together stay beyond the last node.
  induction fuel generalizing fuel' id link with
  | zero => rw [handlerShape_past (by omega), handlerShape_past (by omega)]
  | succ fuel ih =>
      cases fuel' with
      | zero => rw [handlerShape_past (by omega), handlerShape_past (by omega)]
      | succ fuel' =>
          unfold handlerShape
          cases hn : nodes[id.index]? with
          | none => rfl
          | some n =>
              cases n with
              | variadicCase names d next =>
                  have hlt : id.index < next.index := (h _ _ hn).1
                  exact ih (by omega) (by omega) _
              | _ => rfl

/-- So does reading off a chain. -/
theorem shapeFrom_fuel : shapeFrom s nodes fuel id = shapeFrom s nodes fuel' id := by
  induction fuel generalizing fuel' id with
  | zero => rw [shapeFrom_past (by omega), shapeFrom_past (by omega)]
  | succ fuel ih =>
      cases fuel' with
      | zero => rw [shapeFrom_past (by omega), shapeFrom_past (by omega)]
      | succ fuel' =>
          unfold shapeFrom
          cases hn : nodes[id.index]? with
          | none => rfl
          | some n =>
              cases n with
              | link callee handler next =>
                  have hlt : id.index < next.index := (h _ _ hn).2.1
                  have hrest : shapeFrom s nodes fuel next = shapeFrom s nodes fuel' next :=
                    ih (by omega) (by omega)
                  dsimp only
                  rw [hrest]
              | _ => rfl

end Fuel

/-! ## Room -/

/-- The nodes that hold what is cached: the start of the chain, two for each link, and one for each shape. -/
def CachedChain.nodeCount (chain : CachedChain) : Nat :=
  1 + (chain.links.map fun link => 2 + link.signatures.length).sum

/-- Nodes within the limits are no more than these. -/
theorem CachedChain.Within.nodeCount_le {chain : CachedChain} (h : chain.Within limits) :
    chain.nodeCount ≤ 1 + 2 * limits.functionDepth + limits.functionDepth * limits.variadicDepth := by
  have hsum : (chain.links.map fun link => 2 + link.signatures.length).sum
      ≤ chain.links.length * (2 + limits.variadicDepth) := by
    have hle := List.sum_le_card_nsmul (chain.links.map fun link => 2 + link.signatures.length)
      (2 + limits.variadicDepth) fun count hcount => by
        obtain ⟨link, hlink, rfl⟩ := List.mem_map.1 hcount
        exact Nat.add_le_add_left (h.signatures link hlink).1 2
    rwa [List.length_map, Nat.nsmul_eq_mul] at hle
  have hlinks := Nat.mul_le_mul_right (2 + limits.variadicDepth) h.links
  unfold nodeCount
  calc 1 + (chain.links.map fun link => 2 + link.signatures.length).sum
      ≤ 1 + limits.functionDepth * (2 + limits.variadicDepth) := Nat.add_le_add_left (hsum.trans hlinks) 1
    _ = 1 + 2 * limits.functionDepth + limits.functionDepth * limits.variadicDepth := by ring

theorem LinksTo.unique {limit limit' : Nat} {links' : List (CallableId × NodeId)} {last' : NodeId}
    (h : LinksTo limit nodes links last) (h' : LinksTo limit' nodes links' last') : links' = links := by
  obtain ⟨n, -, -, hread⟩ := h.itemsFrom
  obtain ⟨n', -, -, hread'⟩ := h'.itemsFrom
  exact congrArg Prod.fst (hread'.symm.trans hread)

theorem LinksTo.nodeCount {limit : Nat} (h : LinksTo limit nodes links last) : (cached nodes).nodeCount
    = 1 + (links.map fun link => 2 + (cachedLink nodes link).signatures.length).sum := by
  unfold CachedChain.nodeCount
  rw [h.cached_links, List.map_map]
  rfl

/-- What is cached accounts for all nodes, and each link is one of the chain. -/
structure Filled (limits : CacheLimits) (nodes : Array Node) (mark : Nat → NodeId) : Prop where
  arranged : Arranged limits nodes mark
  chained : ∀ links last, LinksTo limits.functionDepth nodes links last →
    ∀ (k : Nat) (c : CallableId) (handler next : NodeId), nodes[k]? = some (.link c handler next) →
      (c, handler) ∈ links
  counted : nodes.size ≤ (cached nodes).nodeCount

theorem filled_new (limits : CacheLimits) (mark : Nat → NodeId) : Filled limits #[.vacant 0] mark where
  arranged := arranged_new limits mark
  chained links last _ k c handler next hk := by
    rcases k with _ | k
    · cases hk
    · simp at hk
  counted := Nat.le_add_right _ _

/-- A link is one that was there before, or the one that has been added. -/
theorem NodeStep.link_cases (h : NodeStep args limits c fits nodes nodes') {k : Nat} {callee : CallableId}
    {handler next : NodeId} (hk : nodes'[k]? = some (.link callee handler next)) :
    nodes[k]? = some (.link callee handler next)
      ∨ callee = c ∧ handler = ⟨nodes.size⟩ ∧ ∀ mark links last, Arranged limits nodes mark →
        LinksTo limits.functionDepth nodes links last →
        ∃ last', LinksTo limits.functionDepth nodes' (links ++ [(c, ⟨nodes.size⟩)]) last' := by
  have hreplaced : ∀ {id : NodeId} {old n : Node} {extra : Array Node}, nodes[id.index]? = some old →
      (Store.extended nodes extra id n)[k]? = some (.link callee handler next) → n.asLink = none →
      (∀ x ∈ extra, x.asLink = none) → nodes[k]? = some (.link callee handler next) := by
    intro id old n extra hold hk hn hextra
    rcases of_extended hold hk with ⟨-, rfl⟩ | ⟨-, hin⟩ | hin
    · cases hn
    · exact hin
    · exact absurd (hextra _ hin) (Option.some_ne_none _)
  cases h with
  | close demand hfollow => exact Or.inl (hreplaced (node_of_follow hfollow) hk rfl (by simp))
  | closeShapes demand _ hfollow => exact Or.inl (hreplaced (node_of_followShapes hfollow) hk rfl (by simp))
  | shape _ hfollow _ _ hlast =>
      refine Or.inl (hreplaced (node_of_followShapes hfollow) hk rfl fun x hx => ?_)
      obtain rfl := Array.mem_singleton.1 hx
      have hends := hlast.ends
      cases x <;> first | rfl | exact hends.elim
  | link hfollow hroom hhandler htail =>
      rcases of_extended (node_of_follow hfollow) hk with ⟨-, heq⟩ | ⟨-, hin⟩ | hin
      · cases heq
        exact Or.inr ⟨rfl, rfl, fun mark links last h hlinks =>
          ⟨_, (h.link hlinks hfollow hroom hhandler htail).1⟩⟩
      · exact Or.inl hin
      · -- Neither a handler nor the end of a chain is a link.
        rcases (by simpa using hin : _ = _ ∨ _ = _) with heq | heq
        · subst heq
          exact hhandler.elim
        · subst heq
          exact htail.elim
  | redispatch hn hd _ =>
      rw [Array.getElem?_modify] at hk
      split at hk
      · rename_i hid
        subst hid
        rw [hn] at hk
        rcases dispatchOf?_eq_some hd with rfl | ⟨names, after, rfl⟩ <;> cases hk
      · exact Or.inl hk

/-- What is cached never accounts for fewer nodes than before. -/
theorem Arranged.nodeCount_mono {mark mark' : Nat → NodeId} (h : Arranged limits nodes mark)
    (h' : Arranged limits nodes' mark') (hkeeps : Keeps nodes nodes') :
    (cached nodes).nodeCount ≤ (cached nodes').nodeCount := by
  obtain ⟨links, last, hlinks⟩ := h.links
  obtain ⟨more, last', hlinks', -⟩ := h'.exists_more hkeeps hlinks
  rw [hlinks.nodeCount, hlinks'.nodeCount, List.map_append, List.sum_append]
  have hle := List.sum_le_sum (l := links) fun link hlink =>
    Nat.add_le_add_left (h.grows_link h' hkeeps hlinks hlink).signatures.length_le 2
  omega

/-- A shape that has been added is one more for the list it is added to. -/
theorem Arranged.nodeCount_shape {mark mark' : Nat → NodeId} (h : Arranged limits nodes mark)
    (h' : Arranged limits nodes' mark') (hkeeps : Keeps nodes nodes')
    (hlinks : LinksTo limits.functionDepth nodes links last) {link : CallableId × NodeId} (hlink : link ∈ links)
    {names : List SuppliedNames} (hto : ShapesTo limits.variadicDepth nodes link.2 names id)
    (hn : nodes'[id.index]? = some n) (hshape : n.asShape ≠ none) :
    (cached nodes).nodeCount < (cached nodes').nodeCount := by
  obtain ⟨more, last', hlinks', -⟩ := h'.exists_more hkeeps hlinks
  rw [hlinks.nodeCount, hlinks'.nodeCount, List.map_append, List.sum_append]
  have hlonger : (cachedLink nodes link).signatures.length < (cachedLink nodes' link).signatures.length := by
    obtain ⟨names', last₁, hto'⟩ := h'.shapesTo hlinks' (List.mem_append_left more hlink)
    obtain ⟨old, hold, -⟩ := hto.ends
    obtain ⟨n', hn', hcloses⟩ := hto'.ends
    rw [hto.cachedLink_eq hold link.1, hto'.cachedLink_eq hn' link.1]
    obtain ⟨rest, rfl, hrest⟩ := (hto.leads.keeps_shapes hkeeps).more hto'.leads hn' hcloses.asShape
    -- The list does not end where it did.
    cases hrest with
    | here =>
        obtain rfl := Option.some.inj (hn.symm.trans hn')
        exact absurd hcloses.asShape hshape
    | next =>
        dsimp only
        rw [List.length_append, List.length_cons]
        omega
  have hlt := List.sum_lt_sum (fun link => 2 + (cachedLink nodes link).signatures.length)
    (fun link => 2 + (cachedLink nodes' link).signatures.length)
    (fun link hlink => Nat.add_le_add_left (h.grows_link h' hkeeps hlinks hlink).signatures.length_le 2)
    ⟨link, hlink, Nat.add_lt_add_left hlonger 2⟩
  omega

/-- **No change adds more nodes than what it caches accounts for.** -/
theorem Filled.step {mark : Nat → NodeId} (h : Filled limits nodes mark)
    (hstep : NodeStep args limits c fits nodes nodes') : ∃ mark', Filled limits nodes' mark' := by
  obtain ⟨links, last, hlinks⟩ := h.arranged.links
  obtain ⟨mark', h'⟩ := h.arranged.step hstep
  obtain ⟨more, last', hlinks', -⟩ := h'.exists_more hstep.keeps hlinks
  refine ⟨mark', h', fun links₁ last₁ hlinks₁ k callee handler next hk => ?_, ?_⟩
  · rcases hstep.link_cases hk with hold | ⟨rfl, rfl, hnew⟩
    · rw [hlinks'.unique hlinks₁]
      exact List.mem_append_left _ (h.chained _ _ hlinks k callee handler next hold)
    · obtain ⟨last₂, hlinks₂⟩ := hnew _ _ _ h.arranged hlinks
      rw [hlinks₂.unique hlinks₁]
      exact List.mem_append_right _ (List.mem_singleton_self _)
  · have hmono := h.counted.trans (h.arranged.nodeCount_mono h' hstep.keeps)
    have hkeeps := hstep.keeps
    cases hstep with
    | close demand hfollow =>
        rw [size_extended]
        exact hmono
    | closeShapes demand _ hfollow =>
        rw [size_extended]
        exact hmono
    | redispatch hn hd hcallable =>
        rw [Array.size_modify]
        exact hmono
    | link hfollow hroom hhandler htail =>
        -- The links there were are still accounted for, and the new one accounts for both nodes.
        have hgrown := (h.arranged.link hlinks hfollow hroom hhandler htail).1
        have hold := h.counted
        have hle := List.sum_le_sum (l := links) fun link hlink =>
          Nat.add_le_add_left (h.arranged.grows_link h' hkeeps hlinks hlink).signatures.length_le 2
        rw [hlinks.nodeCount] at hold
        rw [hgrown.nodeCount, size_extended, List.map_append, List.sum_append, List.map_singleton,
          List.sum_singleton]
        show _ + 2 ≤ _
        omega
    | @shape start id names depth d node hstart hfollow =>
        rw [size_extended]
        obtain ⟨-, signatures, hto, -⟩ := h.arranged.followShapes_vacant hstart hfollow
        have hold := node_of_followShapes hfollow
        have hin : (c, start) ∈ links := by
          rcases hstart with ⟨n, hn⟩ | ⟨k, next, hk⟩
          · rcases h.arranged.follow hlinks hn with ⟨-, -, hcloses⟩ | hin
            · -- The end of the chain is no place to look for shapes.
              obtain ⟨n', hn', hlink, hends⟩ := hto.exists_handler
              obtain rfl := Option.some.inj (hn'.symm.trans (node_of_follow hn))
              cases n' <;> first | exact hcloses.elim | exact absurd trivial hends
            · exact hin
          · exact h.chained _ _ hlinks k c start next hk
        have hlt := h.arranged.nodeCount_shape h' hkeeps hlinks hin hto (extended_self hold)
          (Option.some_ne_none _)
        exact Nat.succ_le_of_lt (Nat.lt_of_le_of_lt h.counted hlt)

theorem Filled.steps {mark : Nat → NodeId} (h : Filled limits nodes mark)
    (hsteps : Relation.ReflTransGen (NodeStep args limits c fits) nodes nodes') :
    ∃ mark', Filled limits nodes' mark' := by
  induction hsteps with
  | refl => exact ⟨mark, h⟩
  | tail _ hstep ih =>
      obtain ⟨mark₁, h₁⟩ := ih
      exact h₁.step hstep

end Chain

/-! ## Faults -/

/-- A fault of anything but a missing node. -/
def Fault.OfScopes (f : Fault) : Prop := ∀ k, f ≠ .missingCacheNode k

/-- An error of anything but a missing node. -/
def EvalError.FoundNodes (e : EvalError) : Prop := ∀ k, e ≠ .internal (.missingCacheNode k)

/-- An operation on scopes that fails, if it does, for reasons of its own. -/
def KeepsToScopes {α : Type} (act : FaultM α) : Prop := ∀ s f, (act.run.run s).1 = .error f → f.OfScopes

namespace KeepsToScopes

variable {α β : Type}

theorem of_store (act : StoreM α) : KeepsToScopes (liftM act : FaultM α) := by
  intro s f h
  cases h

theorem of_fault {f : Fault} (h : f.OfScopes) : KeepsToScopes (throw f : FaultM α) := by
  intro s f' h'
  cases h'
  exact h

theorem bind {act : FaultM β} {g : β → FaultM α} (hact : KeepsToScopes act) (hg : ∀ b, KeepsToScopes (g b)) :
    KeepsToScopes (act >>= g) := by
  intro s
  have hs := hact s
  rw [Store.run_bind]
  generalize act.run.run s = result at hs ⊢
  rcases result with ⟨f | b, s₁⟩
  · intro f' h
    cases h
    exact hs f rfl
  · exact hg b s₁

theorem initializeEnclosing (l : LayoutId) (parent : Option LayoutId) :
    KeepsToScopes (Store.initializeEnclosing l parent) := by
  intro s f h
  rw [Store.initializeEnclosing_run] at h
  split at h
  · cases h
  · split at h
    · cases h
    · cases h
      intro k hk
      cases hk

theorem enter (l : LayoutId) (enclosing : Option ActivationId) (depth : Nat) :
    KeepsToScopes (Store.enter l enclosing depth) := by
  intro s f h
  rw [Store.enter_run] at h
  split at h
  · split at h
    · cases h
      intro k hk
      cases hk
    · cases h
  · cases h

theorem newScope (l : LayoutId) (enclosing : Option ActivationId) (depth : Nat) :
    KeepsToScopes (Store.newScope l enclosing depth) := by
  intro s f h
  rw [Store.newScope_run] at h
  split at h
  · exact enter l enclosing depth s f h
  · have hfirst := initializeEnclosing l (enclosing.map s.layoutOf) s
    generalize (Store.initializeEnclosing l (enclosing.map s.layoutOf)).run.run s = result at h hfirst
    rcases result with ⟨f' | _, s₁⟩
    · cases h
      exact hfirst f rfl
    · exact enter l enclosing depth s₁ f h

theorem write (a : ActivationId) (slot : Nat) (v : Value) (nonLocal : Bool) :
    KeepsToScopes (Store.write a slot v nonLocal) := by
  intro s f h
  rw [Store.write_run] at h
  split at h
  · cases h
    intro k hk
    cases hk
  · cases h

theorem bindArguments (a : ActivationId) (args : List (Formal × Option Value)) :
    KeepsToScopes (Store.bindArguments a args) := by
  induction args with
  | nil => exact of_store (pure ())
  | cons arg rest ih =>
      rcases arg with ⟨f, _ | v⟩
      · exact ih
      · refine bind (of_store get) fun s => bind (of_store _) fun slot => ?_
        exact bind (write a slot v false) fun _ => ih

end KeepsToScopes

/-- **Transfer of control looks for no node.** -/
theorem failsWith_invoke (maxDepth : Nat) (caller : ActivationId) (c : CallableId) (target : Option TargetId)
    (args : List (Option Value)) (demand : CallerDemand) :
    FailsWith EvalError.FoundNodes (Store.invoke maxDepth caller c target args demand) := by
  intro s e h
  cases hkind : (s.callable c).kind with
  | intrinsic body =>
      rw [Store.invoke_intrinsic_run hkind] at h
      cases h
  | closure l enclosing shared =>
      rw [Store.invoke_closure_run hkind] at h
      split at h
      · cases h
        intro k hk
        cases hk
      have hscope := KeepsToScopes.newScope l (some enclosing) (s.calleeDepth caller) (s.hold (Store.callRefs c args))
      generalize (Store.newScope l (some enclosing) (s.calleeDepth caller)).run.run _ = result at h hscope
      rcases result with ⟨f | a, s₁⟩
      · cases h
        exact fun k hk => hscope f rfl k (EvalError.internal.inj hk)
      have hbind := KeepsToScopes.bindArguments a ((s.callable c).formals.zip args) (s₁.hold [.activation a])
      dsimp only at h
      generalize (Store.bindArguments a ((s.callable c).formals.zip args)).run.run _ = result at h hbind
      rcases result with ⟨f | _, s₂⟩
      · cases h
        exact fun k hk => hbind f rfl k (EvalError.internal.inj hk)
      · cases h

namespace Chain

variable {σ : Type} {getters : Getters σ} {i : SiteId} {caller : ActivationId} {m : Machine σ}

/-- A call whose preparation ends in no fault misses no node. -/
theorem foundNodes_thenEnter {act : EvalM σ Prepared} (h : ∀ f, (act.run.run m).1 ≠ .error (.internal f))
    {e : EvalError} (he : ((thenEnter caller act).run.run m).1 = .error e) : e.FoundNodes := by
  unfold thenEnter at he
  rw [EvalM.run_bind] at he
  generalize act.run.run m = result at h he
  rcases result with ⟨e' | p, m₁⟩
  · cases he
    exact fun k hk => h _ (congrArg Except.error hk)
  · exact failsWith_invoke p.maxDepth caller p.callable p.target p.args p.demand m₁.store e he

/-! ## Dispatch -/

/-- A site with such arguments and limits, whose nodes are for what they are reached for, and no more than what is
    cached accounts for. -/
structure Connected (i : SiteId) (args : Arguments) (limits : CacheLimits) (s : Store) : Prop where
  order : InOrder i args limits s
  filled : ∃ mark, Filled limits (s.site i).nodes mark
  assigned : ∃ owner, Assigned args (s.site i).nodes owner

variable {args : Arguments} {limits : CacheLimits} {m₀ : Machine σ} {calls : List (CallableId × Bool)}
  {s s' : Store}

theorem connected_of_unused (h : s.Unused i) :
    Connected i (s.site i).args (s.site i).limits s where
  order := inOrder_of_unused h
  filled := ⟨fun _ => .root, h.nodes.symm ▸ filled_new _ _⟩
  assigned := ⟨fun _ => none, h.nodes.symm ▸ assigned_new _⟩

/-- **A call leaves its site connected**, however it ends. -/
theorem Connected.execute (h : Connected i args limits m.store) (getters : Getters σ) (caller : ActivationId)
    (c : CallableId) : Connected i args limits ((Chain.execute getters i caller c).run.run m).2.store := by
  obtain ⟨mark, hfilled⟩ := h.filled
  obtain ⟨owner, hassigned⟩ := h.assigned
  have hevolves := evolves_execute getters h.order.made h.order.hasArgs h.order.hasLimits caller c
  exact ⟨(h.order.execute getters caller c).1, hfilled.steps hevolves.nodes, hassigned.steps hevolves.nodes⟩

/-- So does whatever leaves the site alone. -/
theorem Connected.meanwhile (h : Connected i args limits s) (hm : s.Meanwhile i s') :
    Connected i args limits s' := by
  obtain ⟨⟨hi, hargs, hlimits, harranged⟩, hfilled, hassigned⟩ := h
  have hsite := hm.site
  rw [← hsite] at hargs hlimits harranged hfilled hassigned
  exact ⟨⟨Nat.lt_of_lt_of_le hi hm.sites, hargs, hlimits, harranged⟩, hfilled, hassigned⟩

/-- **So does a history.** -/
theorem History.connected (hcalls : History i m₀ calls m) (h : Connected i args limits m₀.store) :
    Connected i args limits m.store := by
  induction hcalls with
  | start => exact h
  | call _ getters caller c ih => exact ih.execute getters caller c
  | meanwhile _ hm ih => exact ih.meanwhile hm

namespace Connected

variable (h : Connected i args limits m.store)

include h

theorem refers {k : Nat} {n : Node} (hn : (m.store.site i).nodes[k]? = some n) :
    n.Refers (m.store.site i).nodes k := by
  obtain ⟨owner, hassigned⟩ := h.assigned
  exact hassigned.refers hn

theorem size_le : (m.store.site i).nodes.size
    ≤ 1 + 2 * limits.functionDepth + limits.functionDepth * limits.variadicDepth := by
  obtain ⟨mark, hfilled⟩ := h.filled
  exact hfilled.counted.trans hfilled.arranged.within.nodeCount_le

/-- Following the links ends, within as many steps as there are nodes. -/
theorem follow (c : CallableId) : ∃ r, ∀ fuel, (m.store.site i).nodes.size < fuel →
    Chain.follow (m.store.site i).nodes c fuel .root = .ok r := by
  obtain ⟨owner, hassigned⟩ := h.assigned
  obtain ⟨id, n, hfollow, -, -⟩ := hassigned.follow c ((m.store.site i).nodes.size + 1) .root hassigned.root.1
    (Nat.lt_succ_self _) (Or.inl hassigned.root.2)
  exact ⟨(id, n), fun fuel hfuel => follow_mono hfollow hfuel⟩

/-- So does following the shapes behind a link, if arguments are forwarded. -/
theorem followShapes {k : Nat} {c : CallableId} {handler next : NodeId}
    (hk : (m.store.site i).nodes[k]? = some (.link c handler next))
    (hforwards : Arguments.forwardsVariadic args = true) (names : SuppliedNames) :
    ∃ r, ∀ fuel, (m.store.site i).nodes.size < fuel →
      Chain.followShapes (m.store.site i).nodes names fuel handler = .ok r := by
  obtain ⟨owner, hassigned⟩ := h.assigned
  obtain ⟨-, ⟨-, hin, hmade⟩, -⟩ := hassigned.belongs _ _ hk
  obtain ⟨id, n, hfollow, -⟩ := hassigned.followShapes names ((m.store.site i).nodes.size + 1) handler hin
    (by omega) hmade hforwards
  exact ⟨(id, n), fun fuel hfuel => followShapes_mono hfollow hfuel⟩

theorem foundNodes_execute (getters : Getters σ) (caller : ActivationId) (c : CallableId) {e : EvalError}
    (he : ((Chain.execute getters i caller c).run.run m).1 = .error e) : e.FoundNodes := by
  obtain ⟨owner, hassigned⟩ := h.assigned
  rw [← h.order.hasArgs] at hassigned
  rw [execute_eq] at he
  exact foundNodes_thenEnter (comesTo_prepare h.order.made hassigned).1 he

theorem foundNodes_runVariadic {k : Nat} {c : CallableId} {handler next : NodeId}
    (hk : (m.store.site i).nodes[k]? = some (.link c handler next))
    (hforwards : Arguments.forwardsVariadic args = true) (getters : Getters σ) (caller : ActivationId)
    {e : EvalError} (he : ((runVariadic getters i handler caller c).run.run m).1 = .error e) : e.FoundNodes := by
  obtain ⟨owner, hassigned⟩ := h.assigned
  obtain ⟨-, ⟨-, hin, hmade⟩, -⟩ := hassigned.belongs _ _ hk
  rw [runVariadic_eq] at he
  exact foundNodes_thenEnter (comesTo_variadic hassigned hin hmade hforwards).1 he

theorem foundNodes_executeSite (getters : Getters σ) (caller : ActivationId) {e : EvalError}
    (he : ((executeSite getters i caller).run.run m).1 = .error e) : e.FoundNodes := by
  have hcallee := calleeOf_within (EvalM.steady_meanwhile getters i) i caller m
  have hordinary := ordinary_calleeOf getters i caller m
  rw [executeSite_eq, EvalM.run_bind] at he
  generalize (calleeOf getters i caller).run.run m = result at hcallee hordinary he
  rcases result with ⟨e' | c, m₁⟩
  · cases he
    exact fun k => hordinary e rfl _
  · exact (h.meanwhile hcallee).foundNodes_execute getters caller c he

end Connected

/-- A store with a function that takes any arguments, and a site with room for one link and one shape that calls it
    with the leftover arguments of the caller. Of three scopes, the first has none, and the others have different
    numbers of them. -/
def leftoverSite : Store :=
  { Store.new ["f"] with
    heap := { groups := #[[⟨none, .int 1⟩], [⟨none, .int 1⟩, ⟨none, .int 2⟩]] }
    guards := Array.replicate 4 ⟨"", true⟩
    layouts := #[
      { label := "g", kind := .function, policy := {}, noActiveBinding := ⟨0⟩, enclosingGuard := ⟨1⟩
        slots := #[{ name := .variadic, label := "...", notModifiedNonLocally := ⟨2⟩, noFanOut := ⟨3⟩
                     mayFanOut := false, stable := none, budget := 0 }] }]
    activations := #[
      { serial := 1, layout := ⟨0⟩, depth := 0, enclosing := none },
      { serial := 2, layout := ⟨0⟩, depth := 0, enclosing := none, contents := #[.value (.group ⟨0⟩)] },
      { serial := 3, layout := ⟨0⟩, depth := 0, enclosing := none, contents := #[.value (.group ⟨1⟩)] }]
    nextSerial := 4
    callables := #[
      { name := ⟨2⟩, label := "f", formals := [.variadic]
        wantsCaller := false, wantsDedicatedCopy := false, kind := .intrinsic ⟨0⟩ }]
    sites := #[{ callee := .value (.function ⟨0⟩), args := [{ expr := .forward }]
                 limits := { functionDepth := 1, variadicDepth := 1 } }]
    handles := [.layout ⟨0⟩, .activation ⟨0⟩, .activation ⟨1⟩, .activation ⟨2⟩] }

/-- A call from one of the scopes. -/
def callLeftover (m : Machine Unit) (caller : ActivationId) : Machine Unit :=
  ((execute zeroGetters ⟨0⟩ caller ⟨0⟩).run.run m).2

end Chain

end ScopeCall
