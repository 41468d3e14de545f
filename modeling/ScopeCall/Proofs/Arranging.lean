import Mathlib.Logic.Relation
import ScopeCall.Proofs.Listing

/-!
# `ScopeCall.Proofs.Arranging` — how the nodes of a call site change

A list of nodes grows where it ends: its end makes way for one more item, with a new end behind it, or is
closed. What a call does to the nodes of its site is a number of such changes, and of copies made for callees.
Each change leaves the lists in good order: without repeats, and no longer than the limits of the site.

## Contents
- **What stays.** `Node.Becomes` and `Keeps`.
- **Good order.** `LinksTo`, `ShapesTo` and `Arranged`.
- **Changes.** `NodeStep`, which keeps what there is, and preserves good order.
-/

namespace ScopeCall

/-! ## What stays -/

/-- What may become of a node: the end of a list makes way for an item or is closed, and a callee gets a copy
    of its body. -/
inductive Node.Becomes : Node → Node → Prop
  | same (n : Node) : Becomes n n
  | closed (depth : Nat) (demand : CallerDemand) : Becomes (.vacant depth) (.generic demand)
  | linked (depth : Nat) (c : CallableId) (handler next : NodeId) :
      Becomes (.vacant depth) (.link c handler next)
  | shapesClosed (depth : Nat) (demand : CallerDemand) :
      Becomes (.variadicVacant depth) (.variadicGeneric demand)
  | shaped (depth : Nat) (names : SuppliedNames) (d : Dispatch) (next : NodeId) :
      Becomes (.variadicVacant depth) (.variadicCase names d next)
  | fixedCopied {d d' : Dispatch} (h : d'.callable = d.callable) : Becomes (.fixed d) (.fixed d')
  | shapeCopied (names : SuppliedNames) (next : NodeId) {d d' : Dispatch}
      (h : d'.callable = d.callable) : Becomes (.variadicCase names d next) (.variadicCase names d' next)

namespace Node.Becomes

variable {n n' n'' : Node}

theorem trans (h : n.Becomes n') (h' : n'.Becomes n'') : n.Becomes n'' := by
  cases h with
  | same => exact h'
  | closed depth demand =>
      cases h'
      exact .closed depth demand
  | linked depth c handler next =>
      cases h'
      exact .linked depth c handler next
  | shapesClosed depth demand =>
      cases h'
      exact .shapesClosed depth demand
  | shaped depth names d next => cases h' <;> exact .shaped depth names _ next
  | fixedCopied h =>
      cases h' with
      | same => exact .fixedCopied h
      | fixedCopied h' => exact .fixedCopied (h'.trans h)
  | shapeCopied names next h =>
      cases h' with
      | same => exact .shapeCopied names next h
      | shapeCopied _ _ h' => exact .shapeCopied names next (h'.trans h)

/-- Items stay what they are. -/
theorem asLink (h : n.Becomes n') {r : (CallableId × NodeId) × NodeId} (hr : n.asLink = some r) :
    n'.asLink = some r := by
  cases h <;> first | exact hr | cases hr

theorem asShape (h : n.Becomes n') {r : SuppliedNames × NodeId} (hr : n.asShape = some r) :
    n'.asShape = some r := by
  cases h <;> first | exact hr | cases hr

/-- Another body for a callee. -/
theorem withDispatch {d d' : Dispatch} (hd : Chain.dispatchOf? n = some d)
    (h : d'.callable = d.callable) : n.Becomes (Chain.withDispatch d' n) := by
  rcases dispatchOf?_eq_some hd with rfl | ⟨names, next, rfl⟩
  · exact .fixedCopied h
  · exact .shapeCopied names next h

end Node.Becomes

/-- A new handler for a function: an empty list of shapes where the call forwards arguments, and else the
    callee with its arguments matched. -/
def Node.Handles (args : Arguments) (c : CallableId) (fits : Prop) : Node → Prop
  | .variadicVacant depth => depth = 0 ∧ Arguments.forwardsVariadic args = true
  | .fixed d              => d.callable = c ∧ Arguments.forwardsVariadic args = false ∧ fits
  | _                     => False

/-- The end of a chain is no link, and the end of a list of shapes no shape. -/
theorem Node.ClosesLinks.asLink {n : Node} {limit length : Nat} (h : n.ClosesLinks limit length) :
    n.asLink = none := by
  cases n <;> first | rfl | exact h.elim

theorem Node.ClosesShapes.asShape {n : Node} {limit length : Nat} (h : n.ClosesShapes limit length) :
    n.asShape = none := by
  cases n <;> first | rfl | exact h.elim

namespace Chain

variable {nodes nodes' nodes'' : Array Node} {id last : NodeId} {c : CallableId} {limits : CacheLimits}
  {limit : Nat} {owner : Nat → NodeId} {args : Arguments} {fits : Prop}

/-- No node is lost, and each is what it was or what may become of it. -/
def Keeps (nodes nodes' : Array Node) : Prop :=
  ∀ (k : Nat) (n : Node), nodes[k]? = some n → ∃ n', nodes'[k]? = some n' ∧ n.Becomes n'

theorem Keeps.refl (nodes : Array Node) : Keeps nodes nodes := fun _ n hn => ⟨n, hn, .same n⟩

theorem Keeps.trans (h : Keeps nodes nodes') (h' : Keeps nodes' nodes'') : Keeps nodes nodes'' := by
  intro k n hn
  obtain ⟨n', hn', hbecomes⟩ := h k n hn
  obtain ⟨n'', hn'', hbecomes'⟩ := h' k n' hn'
  exact ⟨n'', hn'', hbecomes.trans hbecomes'⟩

theorem Keeps.extended {old n : Node} (hold : nodes[id.index]? = some old) (h : old.Becomes n)
    (extra : Array Node) : Keeps nodes (Store.extended nodes extra id n) := by
  have hid : id.index < nodes.size := (Array.getElem?_eq_some_iff.1 hold).1
  intro k m hm
  rw [Store.getElem?_extended hid]
  by_cases hk : k = id.index
  · subst hk
    obtain rfl := Option.some.inj (hold.symm.trans hm)
    exact ⟨n, if_pos rfl, h⟩
  · rw [if_neg hk, if_pos (Array.getElem?_eq_some_iff.1 hm).1]
    exact ⟨m, hm, .same m⟩

theorem Keeps.redispatched {n : Node} {d d' : Dispatch} (hn : nodes[id.index]? = some n)
    (hd : dispatchOf? n = some d) (h : d'.callable = d.callable) :
    Keeps nodes (nodes.modify id.index (withDispatch d')) := by
  intro k m hm
  rw [Array.getElem?_modify]
  by_cases hk : id.index = k
  · subst hk
    obtain rfl := Option.some.inj (hn.symm.trans hm)
    rw [if_pos rfl, hn]
    exact ⟨_, rfl, .withDispatch hd h⟩
  · rw [if_neg hk]
    exact ⟨m, hm, .same m⟩

theorem Leads.keeps_links {links : List (CallableId × NodeId)} (h : Leads Node.asLink nodes id links last)
    (hkeeps : Keeps nodes nodes') : Leads Node.asLink nodes' id links last := by
  induction h with
  | here => exact .here _
  | next hn hitem hlt _ ih =>
      obtain ⟨n', hn', hbecomes⟩ := hkeeps _ _ hn
      exact .next hn' (hbecomes.asLink hitem) hlt ih

theorem Leads.keeps_shapes {names : List SuppliedNames} (h : Leads Node.asShape nodes id names last)
    (hkeeps : Keeps nodes nodes') : Leads Node.asShape nodes' id names last := by
  induction h with
  | here => exact .here _
  | next hn hitem hlt _ ih =>
      obtain ⟨n', hn', hbecomes⟩ := hkeeps _ _ hn
      exact .next hn' (hbecomes.asShape hitem) hlt ih

/-- Each link of a chain is a node. -/
theorem Leads.exists_link {links : List (CallableId × NodeId)} (h : Leads Node.asLink nodes id links last)
    {link : CallableId × NodeId} (hlink : link ∈ links) :
    ∃ (k : Nat) (next : NodeId), nodes[k]? = some (.link link.1 link.2 next) := by
  induction h with
  | here => cases hlink
  | next hn hitem _ _ ih =>
      rcases List.mem_cons.1 hlink with rfl | hin
      · obtain rfl := Node.eq_link hitem
        exact ⟨_, _, hn⟩
      · exact ih hin

/-! ## Good order -/

/-- A chain in good order: no two links for one function, and no more than the limit. -/
structure LinksTo (limit : Nat) (nodes : Array Node) (links : List (CallableId × NodeId))
    (last : NodeId) : Prop where
  leads : Leads Node.asLink nodes .root links last
  ends : ∃ n, nodes[last.index]? = some n ∧ n.ClosesLinks limit links.length
  bounded : links.length ≤ limit
  distinct : (links.map Prod.fst).Nodup

/-- A list of shapes in good order: no two for the same names, and no more than the limit. -/
structure ShapesTo (limit : Nat) (nodes : Array Node) (handler : NodeId) (names : List SuppliedNames)
    (last : NodeId) : Prop where
  leads : Leads Node.asShape nodes handler names last
  ends : ∃ n, nodes[last.index]? = some n ∧ n.ClosesShapes limit names.length
  bounded : names.length ≤ limit
  distinct : names.Nodup

namespace LinksTo

variable {links : List (CallableId × NodeId)}

theorem keeps (h : LinksTo limit nodes links last) (hkeeps : Keeps nodes nodes')
    (hends : ∃ n, nodes'[last.index]? = some n ∧ n.ClosesLinks limit links.length) :
    LinksTo limit nodes' links last :=
  ⟨h.leads.keeps_links hkeeps, hends, h.bounded, h.distinct⟩

/-- A node that a chain does not end with may change as it likes. -/
theorem keeps_of_ne (h : LinksTo limit nodes links last) (hkeeps : Keeps nodes nodes')
    (hlast : nodes'[last.index]? = nodes[last.index]?) : LinksTo limit nodes' links last :=
  h.keeps hkeeps (hlast.symm ▸ h.ends)

/-- What there is to read. -/
theorem itemsFrom (h : LinksTo limit nodes links last) : ∃ n, nodes[last.index]? = some n
    ∧ n.ClosesLinks limit links.length
    ∧ itemsFrom Node.asLink nodes (nodes.size + 1) .root = (links, some n) := by
  obtain ⟨n, hn, hcloses⟩ := h.ends
  exact ⟨n, hn, hcloses, h.leads.itemsFrom hn hcloses.asLink (h.leads.length_lt hn)⟩

end LinksTo

namespace ShapesTo

variable {handler : NodeId} {names : List SuppliedNames}

theorem keeps (h : ShapesTo limit nodes handler names last) (hkeeps : Keeps nodes nodes')
    (hends : ∃ n, nodes'[last.index]? = some n ∧ n.ClosesShapes limit names.length) :
    ShapesTo limit nodes' handler names last :=
  ⟨h.leads.keeps_shapes hkeeps, hends, h.bounded, h.distinct⟩

theorem keeps_of_ne (h : ShapesTo limit nodes handler names last) (hkeeps : Keeps nodes nodes')
    (hlast : nodes'[last.index]? = nodes[last.index]?) : ShapesTo limit nodes' handler names last :=
  h.keeps hkeeps (hlast.symm ▸ h.ends)

theorem itemsFrom (h : ShapesTo limit nodes handler names last) : ∃ n, nodes[last.index]? = some n
    ∧ n.ClosesShapes limit names.length
    ∧ itemsFrom Node.asShape nodes (nodes.size + 1) handler = (names, some n) := by
  obtain ⟨n, hn, hcloses⟩ := h.ends
  exact ⟨n, hn, hcloses, h.leads.itemsFrom hn hcloses.asShape (h.leads.length_lt hn)⟩

/-- A handler is a node of its own kind: no link, and no end of a chain. -/
theorem exists_handler (h : ShapesTo limit nodes handler names last) :
    ∃ n, nodes[handler.index]? = some n ∧ n.asLink = none ∧ ¬ n.EndsLinks := by
  obtain ⟨hleads, ⟨n, hn, hcloses⟩, -, -⟩ := h
  cases hleads with
  | here =>
      refine ⟨n, hn, ?_⟩
      cases n <;> first | exact ⟨rfl, id⟩ | exact hcloses.elim
  | next hm hitem =>
      obtain ⟨d, rfl⟩ := Node.eq_variadicCase hitem
      exact ⟨_, hm, rfl, id⟩

end ShapesTo

/-- The nodes of a site are in good order. Each node of a list of shapes is marked with the handler that the
    list starts with, so that no two lists have a node in common. -/
structure Arranged (limits : CacheLimits) (nodes : Array Node) (owner : Nat → NodeId) : Prop where
  links : ∃ links last, LinksTo limits.functionDepth nodes links last
  shapes : ∀ (k : Nat) (c : CallableId) (handler next : NodeId),
    nodes[k]? = some (.link c handler next) → owner handler.index = handler
      ∧ ∃ names last, ShapesTo limits.variadicDepth nodes handler names last
  owned : ∀ (k : Nat) (names : SuppliedNames) (d : Dispatch) (next : NodeId),
    nodes[k]? = some (.variadicCase names d next) → next.index < nodes.size ∧ owner next.index = owner k

/-- The nodes of a new site. -/
theorem arranged_new (limits : CacheLimits) (owner : Nat → NodeId) :
    Arranged limits #[.vacant 0] owner where
  links := ⟨[], .root, .here _, ⟨_, rfl, rfl, Or.inr rfl⟩, Nat.zero_le _, List.nodup_nil⟩
  shapes k c handler next hk := by
    rcases k with _ | k
    · cases hk
    · simp at hk
  owned k names d next hk := by
    rcases k with _ | k
    · cases hk
    · simp at hk

namespace Arranged

/-- The nodes of one list have one mark. -/
theorem owner_eq (h : Arranged limits nodes owner) {names : List SuppliedNames}
    (hleads : Leads Node.asShape nodes id names last) : owner last.index = owner id.index := by
  induction hleads with
  | here => rfl
  | next hn hitem _ _ ih =>
      obtain ⟨d, rfl⟩ := Node.eq_variadicCase hitem
      exact ih.trans (h.owned _ _ _ _ hn).2

/-- Following the chain for a function comes to its end, if the function has no link, and else to the handler
    of its link. -/
theorem follow (h : Arranged limits nodes owner) {links : List (CallableId × NodeId)}
    (hlinks : LinksTo limits.functionDepth nodes links last) {fuel : Nat} {n : Node}
    (hfollow : follow nodes c fuel .root = .ok (id, n)) :
    (c ∉ links.map Prod.fst ∧ id = last ∧ n.ClosesLinks limits.functionDepth links.length)
      ∨ (c, id) ∈ links := by
  obtain ⟨m, hm, hcloses⟩ := hlinks.ends
  rcases hlinks.leads.follow hm hcloses.asLink hfollow with ⟨hnone, heq⟩ | ⟨handler, fuel', hin, hlater⟩
  · obtain ⟨rfl, rfl⟩ := Prod.mk.inj heq
    exact Or.inl ⟨hnone, rfl, hcloses⟩
  · obtain ⟨k, next, hk⟩ := hlinks.leads.exists_link hin
    obtain ⟨-, names, last', hshapes⟩ := h.shapes k c handler next hk
    obtain ⟨n', hn', hlink, -⟩ := hshapes.exists_handler
    obtain ⟨-, fuel'', -, rfl⟩ := exists_of_follow hlater
    rw [follow_succ c fuel'' hn'] at hlater
    right
    cases n' with
    | link => cases hlink
    | _ =>
        cases hlater
        exact hin

end Arranged

/-! ## Changes -/

/-- A call of a function goes through this node behind the links. -/
def HandledAt (nodes : Array Node) (c : CallableId) (start : NodeId) : Prop :=
  (∃ n, follow nodes c (nodes.size + 1) .root = .ok (start, n))
    ∨ ∃ (k : Nat) (next : NodeId), nodes[k]? = some (.link c start next)

/-- One change that a call of a function makes to the nodes of its site. Without forwards, a link is added only
    if the arguments fit. -/
inductive NodeStep (args : Arguments) (limits : CacheLimits) (c : CallableId) (fits : Prop)
    (nodes : Array Node) : Array Node → Prop
  | close {id : NodeId} {depth : Nat} (demand : CallerDemand)
      (hfollow : follow nodes c (nodes.size + 1) .root = .ok (id, .vacant depth))
      (hfull : limits.functionDepth ≤ depth) :
      NodeStep args limits c fits nodes (Store.extended nodes #[] id (.generic demand))
  | link {id : NodeId} {depth : Nat} {handler tail : Node}
      (hfollow : follow nodes c (nodes.size + 1) .root = .ok (id, .vacant depth))
      (hroom : depth < limits.functionDepth) (hhandler : handler.Handles args c fits)
      (htail : tail.ClosesLinks limits.functionDepth (depth + 1)) :
      NodeStep args limits c fits nodes
        (Store.extended nodes #[handler, tail] id (.link c ⟨nodes.size⟩ ⟨nodes.size + 1⟩))
  | closeShapes {start id : NodeId} {names : SuppliedNames} {depth : Nat} (demand : CallerDemand)
      (hstart : HandledAt nodes c start)
      (hfollow : followShapes nodes names (nodes.size + 1) start = .ok (id, .variadicVacant depth))
      (hfull : limits.variadicDepth ≤ depth) :
      NodeStep args limits c fits nodes (Store.extended nodes #[] id (.variadicGeneric demand))
  | shape {start id : NodeId} {names : SuppliedNames} {depth : Nat} {d : Dispatch} {last : Node}
      (hstart : HandledAt nodes c start)
      (hfollow : followShapes nodes names (nodes.size + 1) start = .ok (id, .variadicVacant depth))
      (hroom : depth < limits.variadicDepth) (hcallable : d.callable = c)
      (hlast : last.ClosesShapes limits.variadicDepth (depth + 1)) :
      NodeStep args limits c fits nodes
        (Store.extended nodes #[last] id (.variadicCase names d ⟨nodes.size⟩))
  | redispatch {id : NodeId} {n : Node} {d d' : Dispatch} (hn : nodes[id.index]? = some n)
      (hd : dispatchOf? n = some d) (hcallable : d'.callable = d.callable) :
      NodeStep args limits c fits nodes (nodes.modify id.index (withDispatch d'))

/-- **No change loses anything.** -/
theorem NodeStep.keeps (h : NodeStep args limits c fits nodes nodes') : Keeps nodes nodes' := by
  cases h with
  | close demand hfollow => exact .extended (node_of_follow hfollow) (.closed _ demand) _
  | link hfollow => exact .extended (node_of_follow hfollow) (.linked _ _ _ _) _
  | closeShapes demand _ hfollow =>
      exact .extended (node_of_followShapes hfollow) (.shapesClosed _ demand) _
  | shape _ hfollow => exact .extended (node_of_followShapes hfollow) (.shaped _ _ _ _) _
  | redispatch hn hd hcallable => exact .redispatched hn hd hcallable

theorem keeps_of_steps (h : Relation.ReflTransGen (NodeStep args limits c fits) nodes nodes') :
    Keeps nodes nodes' := by
  induction h with
  | refl => exact .refl nodes
  | tail _ hstep ih => exact ih.trans hstep.keeps

section Extended

variable {old n : Node} {extra : Array Node}

theorem extended_of_lt (hold : nodes[id.index]? = some old) {k : Nat} (hk : k ≠ id.index)
    (hlt : k < nodes.size) : (Store.extended nodes extra id n)[k]? = nodes[k]? := by
  rw [Store.getElem?_extended (Array.getElem?_eq_some_iff.1 hold).1, if_neg hk, if_pos hlt]

theorem extended_self (hold : nodes[id.index]? = some old) :
    (Store.extended nodes extra id n)[id.index]? = some n := by
  rw [Store.getElem?_extended (Array.getElem?_eq_some_iff.1 hold).1, if_pos rfl]

theorem extended_add (hold : nodes[id.index]? = some old) (j : Nat) :
    (Store.extended nodes extra id n)[nodes.size + j]? = extra[j]? := by
  have hid : id.index < nodes.size := (Array.getElem?_eq_some_iff.1 hold).1
  rw [Store.getElem?_extended hid, if_neg (by omega), if_neg (by omega), Nat.add_sub_cancel_left]

theorem size_extended (nodes extra : Array Node) (id : NodeId) (n : Node) :
    (Store.extended nodes extra id n).size = nodes.size + extra.size := by
  unfold Store.extended
  rw [Array.size_setIfInBounds, Array.size_append]

/-- Each node is the one put in place, one that was there, or one added. -/
theorem of_extended (hold : nodes[id.index]? = some old) {k : Nat} {m : Node}
    (hm : (Store.extended nodes extra id n)[k]? = some m) :
    (k = id.index ∧ m = n) ∨ (k ≠ id.index ∧ nodes[k]? = some m) ∨ m ∈ extra := by
  rw [Store.getElem?_extended (Array.getElem?_eq_some_iff.1 hold).1] at hm
  split at hm
  · rename_i hk
    exact Or.inl ⟨hk, (Option.some.inj hm).symm⟩
  · rename_i hk
    split at hm
    · exact Or.inr (Or.inl ⟨hk, hm⟩)
    · exact Or.inr (Or.inr (Array.mem_of_getElem? hm))

/-- A list ends with a node of its own kind. -/
theorem LinksTo.last_ne {links : List (CallableId × NodeId)} (h : LinksTo limit nodes links last)
    (hold : nodes[id.index]? = some old) (hother : ¬ old.ClosesLinks limit links.length) : last ≠ id := by
  rintro rfl
  obtain ⟨n, hn, hcloses⟩ := h.ends
  obtain rfl := Option.some.inj (hn.symm.trans hold)
  exact hother hcloses

theorem ShapesTo.last_ne {handler : NodeId} {names : List SuppliedNames}
    (h : ShapesTo limit nodes handler names last) (hold : nodes[id.index]? = some old)
    (hother : ¬ old.ClosesShapes limit names.length) : last ≠ id := by
  rintro rfl
  obtain ⟨n, hn, hcloses⟩ := h.ends
  obtain rfl := Option.some.inj (hn.symm.trans hold)
  exact hother hcloses

/-- A list that does not end with the node that changes stays as it is. -/
theorem LinksTo.extended {links : List (CallableId × NodeId)} (h : LinksTo limit nodes links last)
    (hold : nodes[id.index]? = some old) (hbecomes : old.Becomes n) (hne : last ≠ id) :
    LinksTo limit (Store.extended nodes extra id n) links last := by
  obtain ⟨m, hm, -⟩ := h.ends
  refine h.keeps_of_ne (.extended hold hbecomes extra) (extended_of_lt hold (fun heq => hne ?_) ?_)
  · exact congrArg NodeId.mk heq
  · exact (Array.getElem?_eq_some_iff.1 hm).1

theorem ShapesTo.extended {handler : NodeId} {names : List SuppliedNames}
    (h : ShapesTo limit nodes handler names last) (hold : nodes[id.index]? = some old)
    (hbecomes : old.Becomes n) (hne : last ≠ id) :
    ShapesTo limit (Store.extended nodes extra id n) handler names last := by
  obtain ⟨m, hm, -⟩ := h.ends
  refine h.keeps_of_ne (.extended hold hbecomes extra) (extended_of_lt hold (fun heq => hne ?_) ?_)
  · exact congrArg NodeId.mk heq
  · exact (Array.getElem?_eq_some_iff.1 hm).1

/-- **Good order is preserved** if the lists that change are in good order afterwards, and what is put in place
    is in order itself. -/
theorem Arranged.extend {owner' : Nat → NodeId} (h : Arranged limits nodes owner)
    (hold : nodes[id.index]? = some old) (hmade : ∀ k < nodes.size, owner' k = owner k)
    (hextra : ∀ m ∈ extra, m.asLink = none ∧ m.asShape = none)
    (hlinks : ∃ links last, LinksTo limits.functionDepth (Store.extended nodes extra id n) links last)
    (hshapes : ∀ handler names last, owner handler.index = handler →
      ShapesTo limits.variadicDepth nodes handler names last → ∃ names' last',
        ShapesTo limits.variadicDepth (Store.extended nodes extra id n) handler names' last')
    (hlink : ∀ c handler next, n = .link c handler next → owner' handler.index = handler
      ∧ ∃ names last,
        ShapesTo limits.variadicDepth (Store.extended nodes extra id n) handler names last)
    (hshape : ∀ names d next, n = .variadicCase names d next →
      next.index < nodes.size + extra.size ∧ owner' next.index = owner' id.index) :
    Arranged limits (Store.extended nodes extra id n) owner' where
  links := hlinks
  shapes k c handler next hk := by
    -- A node that is there now is the one that was replaced, one that was there before, or one of those added.
    rcases of_extended hold hk with ⟨-, heq⟩ | ⟨-, hin⟩ | hin
    · exact hlink c handler next heq.symm
    · obtain ⟨howner, names, last, hto⟩ := h.shapes k c handler next hin
      obtain ⟨n₀, hn₀, -⟩ := hto.exists_handler
      have hlt : handler.index < nodes.size := (Array.getElem?_eq_some_iff.1 hn₀).1
      exact ⟨(hmade _ hlt).trans howner, hshapes handler names last howner hto⟩
    · exact absurd (hextra _ hin).1 (Option.some_ne_none _)
  owned k names d next hk := by
    rw [size_extended]
    rcases of_extended hold hk with ⟨rfl, heq⟩ | ⟨-, hin⟩ | hin
    · exact hshape names d next heq.symm
    · obtain ⟨hlt, howner⟩ := h.owned k names d next hin
      refine ⟨Nat.lt_add_right _ hlt, ?_⟩
      rw [hmade _ hlt, hmade _ (Array.getElem?_eq_some_iff.1 hin).1]
      exact howner
    · exact absurd (hextra _ hin).2 (Option.some_ne_none _)

end Extended

namespace Arranged

variable {links : List (CallableId × NodeId)}

/-- Where a call can still add a link, the chain ends, and the function has none. -/
theorem follow_vacant (h : Arranged limits nodes owner)
    (hlinks : LinksTo limits.functionDepth nodes links last) {fuel depth : Nat}
    (hfollow : Chain.follow nodes c fuel .root = .ok (id, .vacant depth)) :
    c ∉ links.map Prod.fst ∧ id = last ∧ depth = links.length := by
  rcases h.follow hlinks hfollow with ⟨hnone, hlast, hdepth, -⟩ | hin
  · exact ⟨hnone, hlast, hdepth⟩
  · -- A handler is no place where the chain ends.
    obtain ⟨k, next, hk⟩ := hlinks.leads.exists_link hin
    obtain ⟨-, names, last', hshapes⟩ := h.shapes k c id next hk
    obtain ⟨n, hn, -, hends⟩ := hshapes.exists_handler
    obtain rfl := Option.some.inj (hn.symm.trans (node_of_follow hfollow))
    exact absurd trivial hends

/-- Where a call can still add a shape, the list of its function ends, and has none for the names. -/
theorem followShapes_vacant (h : Arranged limits nodes owner) {start : NodeId}
    (hstart : HandledAt nodes c start) {names : SuppliedNames} {fuel depth : Nat}
    (hfollow : followShapes nodes names fuel start = .ok (id, .variadicVacant depth)) :
    owner start.index = start ∧ ∃ signatures, ShapesTo limits.variadicDepth nodes start signatures id
      ∧ names ∉ signatures ∧ depth = signatures.length := by
  obtain ⟨k, next, hk⟩ : ∃ (k : Nat) (next : NodeId), nodes[k]? = some (.link c start next) := by
    rcases hstart with ⟨n, hn⟩ | hlink
    · obtain ⟨links, last, hlinks⟩ := h.links
      rcases h.follow hlinks hn with ⟨-, -, hcloses⟩ | hin
      · -- The end of a chain is no place to look for shapes.
        obtain ⟨-, fuel', -, rfl⟩ := exists_of_followShapes hfollow
        rw [followShapes_succ names fuel' (node_of_follow hn)] at hfollow
        cases n <;> first | exact hcloses.elim | cases hfollow
      · exact hlinks.leads.exists_link hin
    · exact hlink
  obtain ⟨howner, signatures, last, hshapes⟩ := h.shapes k c start next hk
  obtain ⟨n, hn, hcloses⟩ := hshapes.ends
  obtain ⟨hnone, rfl, rfl⟩ := hshapes.leads.followShapes hn hcloses.asShape hfollow rfl
  exact ⟨howner, signatures, hshapes, hnone, hcloses.1⟩

theorem close (h : Arranged limits nodes owner) {depth : Nat} (demand : CallerDemand)
    (hfollow : Chain.follow nodes c (nodes.size + 1) .root = .ok (id, .vacant depth))
    (hfull : limits.functionDepth ≤ depth) :
    Arranged limits (Store.extended nodes #[] id (.generic demand)) owner := by
  obtain ⟨links, last, hlinks⟩ := h.links
  obtain ⟨-, rfl, rfl⟩ := h.follow_vacant hlinks hfollow
  have hold := node_of_follow hfollow
  have hbecomes := Node.Becomes.closed links.length demand
  refine h.extend hold (fun _ _ => rfl) (fun m hm => absurd hm (Array.not_mem_empty m)) ?_ ?_ ?_ ?_
  · exact ⟨links, id, hlinks.keeps (.extended hold hbecomes _) ⟨_, extended_self hold, hfull⟩⟩
  · exact fun handler names last _ hto =>
      ⟨names, last, hto.extended hold hbecomes (hto.last_ne hold not_false)⟩
  · intro c handler next heq
    cases heq
  · intro names d next heq
    cases heq

/-- **A new link stands last**, for a function that had none. -/
theorem link (h : Arranged limits nodes owner) (hlinks : LinksTo limits.functionDepth nodes links last)
    {depth : Nat} {handler tail : Node} {fits : Prop}
    (hfollow : Chain.follow nodes c (nodes.size + 1) .root = .ok (id, .vacant depth))
    (hroom : depth < limits.functionDepth) (hhandler : handler.Handles args c fits)
    (htail : tail.ClosesLinks limits.functionDepth (depth + 1)) :
    LinksTo limits.functionDepth
        (Store.extended nodes #[handler, tail] id (.link c ⟨nodes.size⟩ ⟨nodes.size + 1⟩))
        (links ++ [(c, ⟨nodes.size⟩)]) ⟨nodes.size + 1⟩
      ∧ ∃ owner', Arranged limits
        (Store.extended nodes #[handler, tail] id (.link c ⟨nodes.size⟩ ⟨nodes.size + 1⟩)) owner' := by
  obtain ⟨hnone, rfl, rfl⟩ := h.follow_vacant hlinks hfollow
  have hold := node_of_follow hfollow
  have hid : id.index < nodes.size := (Array.getElem?_eq_some_iff.1 hold).1
  have hbecomes := Node.Becomes.linked links.length c ⟨nodes.size⟩ ⟨nodes.size + 1⟩
  have hkeeps := Keeps.extended hold hbecomes #[handler, tail]
  have hclosesShapes : handler.ClosesShapes limits.variadicDepth 0 := by
    cases handler with
    | variadicVacant depth => exact ⟨hhandler.1, Or.inr rfl⟩
    | fixed d => exact rfl
    | _ => exact hhandler.elim
  have hgrown : LinksTo limits.functionDepth
      (Store.extended nodes #[handler, tail] id (.link c ⟨nodes.size⟩ ⟨nodes.size + 1⟩))
      (links ++ [(c, ⟨nodes.size⟩)]) ⟨nodes.size + 1⟩ := by
    refine ⟨(hlinks.leads.keeps_links hkeeps).append ?_, ⟨tail, extended_add hold 1, ?_⟩, ?_, ?_⟩
    · exact .next (extended_self hold) rfl (Nat.lt_succ_of_lt hid) (.here _)
    · rw [List.length_append]
      exact htail
    · rw [List.length_append]
      exact hroom
    · rw [List.map_append, List.nodup_append]
      refine ⟨hlinks.distinct, List.nodup_singleton _, ?_⟩
      rintro c' hc' _ hin rfl
      obtain rfl := List.mem_singleton.1 hin
      exact hnone hc'
  -- The handler that has been added marks itself; no other mark changes.
  refine ⟨hgrown, fun k => if k = nodes.size then ⟨nodes.size⟩ else owner k, ?_⟩
  refine h.extend hold (fun k hk => if_neg (Nat.ne_of_lt hk)) ?_ ⟨_, _, hgrown⟩ ?_ ?_ ?_
  · intro m hm
    rcases (by simpa using hm : m = handler ∨ m = tail) with rfl | rfl
    · cases m <;> first | exact ⟨rfl, rfl⟩ | exact hhandler.elim
    · cases m <;> first | exact ⟨rfl, rfl⟩ | exact htail.elim
  · exact fun handler' names last _ hto =>
      ⟨names, last, hto.extended hold hbecomes (hto.last_ne hold not_false)⟩
  · intro c' handler' next heq
    cases heq
    refine ⟨if_pos rfl, [], ⟨nodes.size⟩, .here _, ⟨handler, extended_add hold 0, hclosesShapes⟩, ?_, ?_⟩
    · exact Nat.zero_le _
    · exact List.nodup_nil
  · intro names d next heq
    cases heq

theorem closeShapes (h : Arranged limits nodes owner) {start : NodeId} {names : SuppliedNames}
    {depth : Nat} (demand : CallerDemand)
    (hfollow : followShapes nodes names (nodes.size + 1) start = .ok (id, .variadicVacant depth))
    (hfull : limits.variadicDepth ≤ depth) :
    Arranged limits (Store.extended nodes #[] id (.variadicGeneric demand)) owner := by
  have hold := node_of_followShapes hfollow
  have hbecomes := Node.Becomes.shapesClosed depth demand
  refine h.extend hold (fun _ _ => rfl) (fun m hm => absurd hm (Array.not_mem_empty m)) ?_ ?_ ?_ ?_
  · obtain ⟨links, last, hlinks⟩ := h.links
    exact ⟨links, last, hlinks.extended hold hbecomes (hlinks.last_ne hold not_false)⟩
  · intro handler signatures last _ hto
    by_cases hlast : last = id
    · subst hlast
      refine ⟨signatures, last, hto.keeps (.extended hold hbecomes _) ⟨_, extended_self hold, ?_⟩⟩
      obtain ⟨n, hn, hcloses⟩ := hto.ends
      obtain rfl := Option.some.inj (hn.symm.trans hold)
      exact hcloses.1 ▸ hfull
    · exact ⟨signatures, last, hto.extended hold hbecomes hlast⟩
  · intro c handler next heq
    cases heq
  · intro names d next heq
    cases heq

/-- **A new shape stands last**, for names that had none. The mark of its place tells which list it is in. -/
theorem shape (h : Arranged limits nodes owner) {start : NodeId} {names : SuppliedNames} {depth : Nat}
    {d : Dispatch} {tail : Node} (hstart : HandledAt nodes c start)
    (hfollow : followShapes nodes names (nodes.size + 1) start = .ok (id, .variadicVacant depth))
    (hroom : depth < limits.variadicDepth)
    (htail : tail.ClosesShapes limits.variadicDepth (depth + 1)) :
    ∃ owner', Arranged limits
      (Store.extended nodes #[tail] id (.variadicCase names d ⟨nodes.size⟩)) owner' := by
  obtain ⟨howner, signatures, hshapes, hnone, rfl⟩ := h.followShapes_vacant hstart hfollow
  have hold := node_of_followShapes hfollow
  have hid : id.index < nodes.size := (Array.getElem?_eq_some_iff.1 hold).1
  have hbecomes := Node.Becomes.shaped signatures.length names d ⟨nodes.size⟩
  have hkeeps := Keeps.extended hold hbecomes #[tail]
  have hgrown : ShapesTo limits.variadicDepth
      (Store.extended nodes #[tail] id (.variadicCase names d ⟨nodes.size⟩)) start
      (signatures ++ [names]) ⟨nodes.size⟩ := by
    refine ⟨(hshapes.leads.keeps_shapes hkeeps).append ?_, ⟨tail, extended_add hold 0, ?_⟩, ?_, ?_⟩
    · exact .next (extended_self hold) rfl hid (.here _)
    · rw [List.length_append]
      exact htail
    · rw [List.length_append]
      exact hroom
    · rw [List.nodup_append]
      refine ⟨hshapes.distinct, List.nodup_singleton _, ?_⟩
      rintro names' hin _ hin' rfl
      obtain rfl := List.mem_singleton.1 hin'
      exact hnone hin
  -- The tail belongs to the list whose end it takes over.
  refine ⟨fun k => if k = nodes.size then owner id.index else owner k, ?_⟩
  refine h.extend hold (fun k hk => if_neg (Nat.ne_of_lt hk)) ?_ ?_ ?_ ?_ ?_
  · intro m hm
    obtain rfl : m = tail := by simpa using hm
    have hends := htail.ends
    cases m <;> first | exact ⟨rfl, rfl⟩ | exact hends.elim
  · obtain ⟨links, last, hlinks⟩ := h.links
    exact ⟨links, last, hlinks.extended hold hbecomes (hlinks.last_ne hold not_false)⟩
  · intro handler signatures' last howner' hto
    -- Of all lists, only the one that ends here grows: ends with one mark are one end.
    by_cases hlast : last = id
    · subst hlast
      have hsame : handler = start :=
        howner'.symm.trans ((h.owner_eq hto.leads).symm.trans ((h.owner_eq hshapes.leads).trans howner))
      exact ⟨_, _, hsame ▸ hgrown⟩
    · exact ⟨signatures', last, hto.extended hold hbecomes hlast⟩
  · intro c' handler next heq
    cases heq
  · intro names' d' next heq
    cases heq
    exact ⟨Nat.lt_succ_self _, (if_pos rfl).trans (if_neg (Nat.ne_of_lt hid)).symm⟩

/-- **A copy for a callee changes no list.** -/
theorem redispatch (h : Arranged limits nodes owner) {n : Node} {d d' : Dispatch}
    (hn : nodes[id.index]? = some n) (hd : dispatchOf? n = some d) (hcallable : d'.callable = d.callable) :
    Arranged limits (nodes.modify id.index (withDispatch d')) owner := by
  have hkeeps := Keeps.redispatched hn hd hcallable
  have hself : (nodes.modify id.index (withDispatch d'))[id.index]? = some (withDispatch d' n) := by
    rw [Array.getElem?_modify, if_pos rfl, hn]
    rfl
  have hother : ∀ {k : Nat}, k ≠ id.index →
      (nodes.modify id.index (withDispatch d'))[k]? = nodes[k]? := fun hk => by
    rw [Array.getElem?_modify, if_neg (Ne.symm hk)]
  obtain ⟨links, last, hlinks⟩ := h.links
  obtain ⟨m, hm, hcloses⟩ := hlinks.ends
  -- No list ends at the node that changes, and no link is one: it has a dispatch.
  refine ⟨⟨links, last, hlinks.keeps_of_ne hkeeps (hother fun hlast => ?_)⟩, ?_, ?_⟩
  · rw [hlast] at hm
    obtain rfl := Option.some.inj (hm.symm.trans hn)
    cases m <;> first | exact hcloses.elim | cases hd
  · intro k c handler next hk
    have hold : nodes[k]? = some (.link c handler next) := by
      by_cases heq : k = id.index
      · subst heq
        have hlink := Option.some.inj (hself.symm.trans hk)
        rcases dispatchOf?_eq_some hd with rfl | ⟨names, next', rfl⟩ <;> cases hlink
      · exact (hother heq).symm.trans hk
    obtain ⟨howner, names, last', hto⟩ := h.shapes k c handler next hold
    refine ⟨howner, names, last', ?_⟩
    by_cases heq : last'.index = id.index
    · obtain ⟨m', hm', hcloses'⟩ := hto.ends
      rw [heq] at hm'
      refine hto.keeps hkeeps ⟨_, (congrArg _ heq).trans hself, ?_⟩
      obtain rfl := Option.some.inj (hn.symm.trans hm')
      rcases dispatchOf?_eq_some hd with rfl | ⟨names', next', rfl⟩
      · exact hcloses'
      · exact hcloses'.elim
    · exact hto.keeps_of_ne hkeeps (hother heq)
  · intro k names d₁ next hk
    rw [Array.size_modify]
    by_cases heq : k = id.index
    · subst heq
      have hcase := Option.some.inj (hself.symm.trans hk)
      rcases dispatchOf?_eq_some hd with rfl | ⟨names', next', rfl⟩
      · cases hcase
      · cases hcase
        exact h.owned _ _ _ _ hn
    · exact h.owned k names d₁ next ((hother heq).symm.trans hk)

/-- **Every change preserves good order.** -/
theorem step (h : Arranged limits nodes owner) {fits : Prop}
    (hstep : NodeStep args limits c fits nodes nodes') : ∃ owner', Arranged limits nodes' owner' := by
  cases hstep with
  | close demand hfollow hfull => exact ⟨owner, h.close demand hfollow hfull⟩
  | link hfollow hroom hhandler htail =>
      obtain ⟨links, last, hlinks⟩ := h.links
      exact (h.link hlinks hfollow hroom hhandler htail).2
  | closeShapes demand _ hfollow hfull => exact ⟨owner, h.closeShapes demand hfollow hfull⟩
  | shape hstart hfollow hroom _ hlast => exact h.shape hstart hfollow hroom hlast
  | redispatch hn hd hcallable => exact ⟨owner, h.redispatch hn hd hcallable⟩

end Arranged

end Chain

end ScopeCall
