import ScopeCall.Proofs.Growing

/-!
# `ScopeCall.Proofs.Listing` — the lists in the nodes of a call site

The links of a chain are a list in the array of nodes, and so are the argument shapes behind a link. A list
ends in a node that is no item of it.

## Contents
- **Reading.** `itemsFrom`, and `cached`, all that a chain has cached.
- **Lists.** `Leads`: the items from a node to another.
- **Following.** Where following a list comes to.
-/

namespace ScopeCall

/-- What a link says, and the node behind it. -/
def Node.asLink : Node → Option ((CallableId × NodeId) × NodeId)
  | .link c handler next => some ((c, handler), next)
  | _                    => none

/-- The names that a node has cached, and the node behind it. -/
def Node.asShape : Node → Option (SuppliedNames × NodeId)
  | .variadicCase names _ next => some (names, next)
  | _                          => none

theorem Node.eq_link {n : Node} {link : CallableId × NodeId} {next : NodeId}
    (h : n.asLink = some (link, next)) : n = .link link.1 link.2 next := by
  cases n with
  | link c handler next' =>
      cases h
      rfl
  | _ => cases h

theorem Node.eq_variadicCase {n : Node} {names : SuppliedNames} {next : NodeId}
    (h : n.asShape = some (names, next)) : ∃ d, n = .variadicCase names d next := by
  cases n with
  | variadicCase names' d next' =>
      cases h
      exact ⟨d, rfl⟩
  | _ => cases h

def Node.isGeneric : Node → Bool
  | .generic _ => true
  | _          => false

def Node.isVariadicGeneric : Node → Bool
  | .variadicGeneric _ => true
  | _                  => false

namespace Chain

variable {α : Type} {item : Node → Option (α × NodeId)} {nodes nodes' : Array Node} {id mid last : NodeId}
  {c : CallableId} {limits : CacheLimits} {limit : Nat}

/-! ## Reading -/

/-- The items of the list that starts at a node, and the node where it ends. -/
def itemsFrom (item : Node → Option (α × NodeId)) (nodes : Array Node) : Nat → NodeId → List α × Option Node
  | 0, _ => ([], none)
  | fuel + 1, id =>
    match nodes[id.index]? with
    | none => ([], none)
    | some n =>
      match item n with
      | none           => ([], some n)
      | some (a, next) =>
        let rest := itemsFrom item nodes fuel next
        (a :: rest.1, rest.2)

/-- What a link has cached: its function, and the names of arguments that have been matched for it, if the
    call forwards some. -/
structure CachedLink where
  callee : CallableId
  signatures : List SuppliedNames
  /-- Whether calls with other names are matched anew. -/
  full : Bool
deriving DecidableEq, Repr

/-- What a chain has cached. -/
structure CachedChain where
  links : List CachedLink
  /-- Whether calls of other functions are matched anew. -/
  generic : Bool
deriving DecidableEq, Repr

def CachedChain.callees (chain : CachedChain) : List CallableId := chain.links.map (·.callee)

def cachedLink (nodes : Array Node) (link : CallableId × NodeId) : CachedLink :=
  let shapes := itemsFrom Node.asShape nodes (nodes.size + 1) link.2
  { callee := link.1, signatures := shapes.1, full := shapes.2.any Node.isVariadicGeneric }

def cached (nodes : Array Node) : CachedChain :=
  let links := itemsFrom Node.asLink nodes (nodes.size + 1) .root
  { links := links.1.map (cachedLink nodes), generic := links.2.any Node.isGeneric }

/-- What can be observed behind a link: how many shapes there are, and whether they are all there can be. -/
theorem handlerShape_eq (s : Store) (nodes : Array Node) (fuel : Nat) (id : NodeId) (link : LinkShape) :
    (handlerShape s nodes fuel id link).callee = link.callee
      ∧ (handlerShape s nodes fuel id link).shapes
        = link.shapes + (itemsFrom Node.asShape nodes fuel id).1.length
      ∧ (handlerShape s nodes fuel id link).generic
        = (link.generic || (itemsFrom Node.asShape nodes fuel id).2.any Node.isVariadicGeneric) := by
  induction fuel generalizing id link with
  | zero => exact ⟨rfl, rfl, (Bool.or_false _).symm⟩
  | succ fuel ih =>
      unfold handlerShape itemsFrom
      cases nodes[id.index]? with
      | none => exact ⟨rfl, rfl, (Bool.or_false _).symm⟩
      | some n =>
          cases n with
          | variadicCase names d next =>
              obtain ⟨hcallee, hshapes, hgeneric⟩ := ih next { link with
                shapes := link.shapes + 1
                materialized := link.materialized || s.demandNeeded d.demand }
              refine ⟨hcallee, hshapes.trans ?_, hgeneric⟩
              show link.shapes + 1 + _ = link.shapes + (_ + 1)
              omega
          | variadicGeneric demand => exact ⟨rfl, rfl, (Bool.or_true _).symm⟩
          | _ => exact ⟨rfl, rfl, (Bool.or_false _).symm⟩

theorem shapeFrom_eq (s : Store) (nodes : Array Node) (fuel : Nat) (id : NodeId) :
    (shapeFrom s nodes fuel id).links = (itemsFrom Node.asLink nodes fuel id).1.map (fun link =>
        handlerShape s nodes (nodes.size + 1) link.2 { callee := (s.callable link.1).label })
      ∧ (shapeFrom s nodes fuel id).generic
        = (itemsFrom Node.asLink nodes fuel id).2.any Node.isGeneric := by
  induction fuel generalizing id with
  | zero => exact ⟨rfl, rfl⟩
  | succ fuel ih =>
      unfold shapeFrom itemsFrom
      cases nodes[id.index]? with
      | none => exact ⟨rfl, rfl⟩
      | some n =>
          cases n with
          | link c handler next =>
              obtain ⟨hlinks, hgeneric⟩ := ih next
              exact ⟨congrArg (_ :: ·) hlinks, hgeneric⟩
          | _ => exact ⟨rfl, rfl⟩

/-- **The shape of a chain counts what it has cached.** -/
theorem shape_eq_cached (s : Store) (i : SiteId) :
    (shape s i).generic = (cached (s.site i).nodes).generic
      ∧ (shape s i).links.map (fun link => (link.callee, link.shapes, link.generic))
        = (cached (s.site i).nodes).links.map fun link =>
            ((s.callable link.callee).label, link.signatures.length, link.full) := by
  obtain ⟨hlinks, hgeneric⟩ := shapeFrom_eq s (s.site i).nodes ((s.site i).nodes.size + 1) .root
  refine ⟨hgeneric, ?_⟩
  unfold shape cached
  dsimp only
  rw [hlinks, List.map_map, List.map_map]
  refine List.map_congr_left fun link _ => ?_
  obtain ⟨hcallee, hshapes, hfull⟩ := handlerShape_eq s (s.site i).nodes ((s.site i).nodes.size + 1) link.2
    { callee := (s.callable link.1).label }
  refine Prod.ext hcallee (Prod.ext (hshapes.trans (Nat.zero_add _)) ?_)
  exact hfull.trans (Bool.false_or _)

/-! ## Lists -/

/-- The list that starts at a node has these items up to another node. Lists lead to later nodes. -/
inductive Leads (item : Node → Option (α × NodeId)) (nodes : Array Node) : NodeId → List α → NodeId → Prop
  | here (id : NodeId) : Leads item nodes id [] id
  | next {id next last : NodeId} {n : Node} {a : α} {as : List α} (hn : nodes[id.index]? = some n)
      (hitem : item n = some (a, next)) (hlt : id.index < next.index)
      (h : Leads item nodes next as last) : Leads item nodes id (a :: as) last

namespace Leads

variable {as bs : List α}

theorem append (h : Leads item nodes id as mid) (h' : Leads item nodes mid bs last) :
    Leads item nodes id (as ++ bs) last := by
  induction h with
  | here => exact h'
  | next hn hitem hlt _ ih => exact .next hn hitem hlt (ih h')

theorem index_le (h : Leads item nodes id as last) : id.index + as.length ≤ last.index := by
  induction h with
  | here => exact le_rfl
  | next hn hitem hlt _ ih =>
      rw [List.length_cons]
      omega

/-- Reading a list comes to its end, if there is fuel enough. -/
theorem itemsFrom (h : Leads item nodes id as last) {n : Node} (hn : nodes[last.index]? = some n)
    (hend : item n = none) {fuel : Nat} (hfuel : as.length < fuel) :
    Chain.itemsFrom item nodes fuel id = (as, some n) := by
  induction h generalizing fuel with
  | here =>
      obtain ⟨fuel, rfl⟩ := Nat.exists_eq_add_of_lt hfuel
      rw [List.length_nil, Nat.zero_add, Chain.itemsFrom, hn]
      dsimp only
      rw [hend]
  | next hm hitem _ _ ih =>
      obtain ⟨fuel, rfl⟩ : ∃ k, fuel = k + 1 := ⟨fuel - 1, by omega⟩
      rw [Chain.itemsFrom, hm]
      dsimp only
      rw [hitem]
      dsimp only
      rw [ih hn (Nat.lt_of_succ_lt_succ hfuel)]

/-- There is always fuel enough. -/
theorem length_lt (h : Leads item nodes id as last) {n : Node} (hn : nodes[last.index]? = some n) :
    as.length < nodes.size + 1 := by
  have hle := h.index_le
  have hlt := (Array.getElem?_eq_some_iff.1 hn).1
  omega

/-- A list that goes on to an end has the items of its beginning first. -/
theorem more (h : Leads item nodes id as mid) (h' : Leads item nodes id bs last) {n : Node}
    (hn : nodes[last.index]? = some n) (hend : item n = none) :
    ∃ rest, bs = as ++ rest ∧ Leads item nodes mid rest last := by
  induction h generalizing bs with
  | here => exact ⟨bs, rfl, h'⟩
  | next hm hitem _ _ ih =>
      cases h' with
      | here =>
          obtain rfl := Option.some.inj (hn.symm.trans hm)
          rw [hend] at hitem
          cases hitem
      | next hm' hitem' _ hrest =>
          obtain rfl := Option.some.inj (hm'.symm.trans hm)
          obtain ⟨rfl, rfl⟩ := Prod.mk.inj (Option.some.inj (hitem'.symm.trans hitem))
          obtain ⟨rest, rfl, hlast⟩ := ih hrest
          exact ⟨rest, rfl, hlast⟩

end Leads

/-! ## Following -/

theorem follow_succ (c : CallableId) (fuel : Nat) {n : Node} (hn : nodes[id.index]? = some n) :
    follow nodes c (fuel + 1) id = match n with
      | .link callee handler next => follow nodes c fuel (if callee = c then handler else next)
      | n => .ok (id, n) := by
  rw [follow, Store.node_eq hn]
  cases n <;> rfl

theorem followShapes_succ (names : SuppliedNames) (fuel : Nat) {n : Node}
    (hn : nodes[id.index]? = some n) :
    followShapes nodes names (fuel + 1) id = match n with
      | .variadicCase cached d next =>
        if cached = names then .ok (id, .variadicCase cached d next)
        else followShapes nodes names fuel next
      | n => .ok (id, n) := by
  rw [followShapes, Store.node_eq hn]
  cases n <;> rfl

theorem exists_of_node {n : Node} (h : node nodes id = .ok n) : nodes[id.index]? = some n := by
  unfold node at h
  cases hn : nodes[id.index]? with
  | none =>
      rw [hn] at h
      cases h
  | some n' =>
      rw [hn] at h
      cases h
      rfl

/-- Following needs a node at each step. -/
theorem exists_of_follow {fuel : Nat} {r : NodeId × Node} (h : follow nodes c fuel id = .ok r) :
    ∃ n fuel', nodes[id.index]? = some n ∧ fuel = fuel' + 1 := by
  cases fuel with
  | zero => cases h
  | succ fuel =>
      cases hn : node nodes id with
      | ok n => exact ⟨n, fuel, exists_of_node hn, rfl⟩
      | error e =>
          rw [follow, hn] at h
          cases h

theorem exists_of_followShapes {names : SuppliedNames} {fuel : Nat} {r : NodeId × Node}
    (h : followShapes nodes names fuel id = .ok r) :
    ∃ n fuel', nodes[id.index]? = some n ∧ fuel = fuel' + 1 := by
  cases fuel with
  | zero => cases h
  | succ fuel =>
      cases hn : node nodes id with
      | ok n => exact ⟨n, fuel, exists_of_node hn, rfl⟩
      | error e =>
          rw [followShapes, hn] at h
          cases h

theorem node_of_follow {fuel : Nat} {n : Node} (h : follow nodes c fuel id = .ok (last, n)) :
    nodes[last.index]? = some n := by
  induction fuel generalizing id with
  | zero => cases h
  | succ fuel ih =>
      obtain ⟨n₀, _, hn₀, -⟩ := exists_of_follow h
      rw [follow_succ c fuel hn₀] at h
      cases n₀ with
      | link callee handler next => exact ih h
      | _ =>
          cases h
          exact hn₀

theorem node_of_followShapes {names : SuppliedNames} {fuel : Nat} {n : Node}
    (h : followShapes nodes names fuel id = .ok (last, n)) : nodes[last.index]? = some n := by
  induction fuel generalizing id with
  | zero => cases h
  | succ fuel ih =>
      obtain ⟨n₀, _, hn₀, -⟩ := exists_of_followShapes h
      rw [followShapes_succ names fuel hn₀] at h
      cases n₀ with
      | variadicCase cached d next =>
          dsimp only at h
          split at h
          · cases h
            exact hn₀
          · exact ih h
      | _ =>
          cases h
          exact hn₀

/-- Following a chain for a function comes to the end if no link is for it, and else into a link that is. -/
theorem Leads.follow {links : List (CallableId × NodeId)} (h : Leads Node.asLink nodes id links last)
    {n : Node} (hn : nodes[last.index]? = some n) (hend : n.asLink = none) {fuel : Nat}
    {r : NodeId × Node} (hfollow : Chain.follow nodes c fuel id = .ok r) :
    (c ∉ links.map Prod.fst ∧ r = (last, n))
      ∨ ∃ handler fuel', (c, handler) ∈ links ∧ Chain.follow nodes c fuel' handler = .ok r := by
  induction h generalizing fuel with
  | here id =>
      obtain ⟨_, fuel, -, rfl⟩ := exists_of_follow hfollow
      rw [follow_succ c fuel hn] at hfollow
      refine Or.inl ⟨List.not_mem_nil, ?_⟩
      cases n with
      | link callee handler next => cases hend
      | _ => exact (Except.ok.inj hfollow).symm
  | @next _ next _ _ link _ hm hitem _ _ ih =>
      obtain ⟨_, fuel, -, rfl⟩ := exists_of_follow hfollow
      obtain rfl := Node.eq_link hitem
      rw [follow_succ c fuel hm] at hfollow
      dsimp only at hfollow
      by_cases hc : link.1 = c
      · rw [if_pos hc] at hfollow
        subst hc
        exact Or.inr ⟨link.2, fuel, List.mem_cons_self, hfollow⟩
      · rw [if_neg hc] at hfollow
        rcases ih hn hfollow with ⟨hnone, hlast⟩ | ⟨handler, fuel', hin, hlater⟩
        · refine Or.inl ⟨?_, hlast⟩
          rw [List.map_cons, List.mem_cons, not_or]
          exact ⟨Ne.symm hc, hnone⟩
        · exact Or.inr ⟨handler, fuel', List.mem_cons_of_mem _ hin, hlater⟩

/-- A function that no link is for is followed to the end. -/
theorem Leads.follow_of_not_mem {links : List (CallableId × NodeId)}
    (h : Leads Node.asLink nodes id links last) {n : Node} (hn : nodes[last.index]? = some n)
    (hend : n.asLink = none) (hnone : c ∉ links.map Prod.fst) {fuel : Nat} (hfuel : links.length < fuel) :
    Chain.follow nodes c fuel id = .ok (last, n) := by
  induction h generalizing fuel with
  | here =>
      obtain ⟨fuel, rfl⟩ : ∃ k, fuel = k + 1 := ⟨fuel - 1, by omega⟩
      rw [follow_succ c fuel hn]
      cases n <;> first | rfl | cases hend
  | @next _ next _ _ link rest hm hitem _ _ ih =>
      obtain ⟨fuel, rfl⟩ : ∃ k, fuel = k + 1 := ⟨fuel - 1, by omega⟩
      obtain rfl := Node.eq_link hitem
      rw [List.map_cons, List.mem_cons, not_or] at hnone
      rw [follow_succ c fuel hm]
      dsimp only
      rw [if_neg (Ne.symm hnone.1)]
      exact ih hn hnone.2 (Nat.lt_of_succ_lt_succ hfuel)

/-- Following a list of shapes comes to its end only if none is for the names. -/
theorem Leads.followShapes {signatures : List SuppliedNames}
    (h : Leads Node.asShape nodes id signatures last) {n : Node} (hn : nodes[last.index]? = some n)
    (hend : n.asShape = none) {names : SuppliedNames} {fuel : Nat} {id' : NodeId} {n' : Node}
    (hfollow : Chain.followShapes nodes names fuel id = .ok (id', n')) (hstop : n'.asShape = none) :
    names ∉ signatures ∧ id' = last ∧ n' = n := by
  induction h generalizing fuel with
  | here id =>
      obtain ⟨_, fuel, -, rfl⟩ := exists_of_followShapes hfollow
      rw [followShapes_succ names fuel hn] at hfollow
      cases n with
      | variadicCase cached d next => cases hend
      | _ =>
          cases hfollow
          exact ⟨List.not_mem_nil, rfl, rfl⟩
  | next hm hitem _ _ ih =>
      obtain ⟨_, fuel, -, rfl⟩ := exists_of_followShapes hfollow
      obtain ⟨d, rfl⟩ := Node.eq_variadicCase hitem
      rw [followShapes_succ names fuel hm] at hfollow
      dsimp only at hfollow
      split at hfollow
      · cases hfollow
        cases hstop
      · rename_i hnames
        obtain ⟨hnone, hlast⟩ := ih hn hfollow
        rw [List.mem_cons, not_or]
        exact ⟨⟨Ne.symm hnames, hnone⟩, hlast⟩

end Chain

end ScopeCall
