import ScopeCall.Proofs.Calling

/-!
# `ScopeCall.Proofs.Growing` — chains grow in good order

The end of a chain makes way for a link, and the end of a list of shapes for one more shape. In both cases a
new end is added, and what has been matched goes into the nodes.

## Contents
- **Ends.** `Node.EndsLinks` and `Node.EndsShapes`, and with the limits `Node.ClosesLinks` and
  `Node.ClosesShapes`.
- **Changing nodes.** What each operation leaves.
- **Growing.** `Served.close`, `Served.growShapes` and `Served.growLinks`.
-/

namespace ScopeCall

variable {s : Store} {i : SiteId} {c : CallableId} {owner : Nat → Option CallableId}

/-! ## Ends -/

/-- A list of shapes ends in such a node. -/
def Node.EndsShapes : Node → Prop
  | .variadicVacant _ | .variadicGeneric _ => True
  | _ => False

/-- A chain of links ends in such a node. -/
def Node.EndsLinks : Node → Prop
  | .vacant _ | .generic _ => True
  | _ => False

/-- The end of a list of `length` shapes: it can still grow, or has reached the limit. A callee without shapes
    counts as an empty list. -/
def Node.ClosesShapes (limit length : Nat) : Node → Prop
  | .variadicVacant depth => depth = length ∧ (length < limit ∨ length = 0)
  | .variadicGeneric _    => limit ≤ length
  | .fixed _              => length = 0
  | _                     => False

/-- The end of a chain of `length` links: it can still grow, or has reached the limit. -/
def Node.ClosesLinks (limit length : Nat) : Node → Prop
  | .vacant depth => depth = length ∧ (length < limit ∨ length = 0)
  | .generic _    => limit ≤ length
  | _             => False

theorem Node.ClosesShapes.ends {n : Node} {limit depth : Nat} (h : n.ClosesShapes limit (depth + 1)) :
    n.EndsShapes := by
  cases n with
  | variadicVacant _ => trivial
  | variadicGeneric _ => trivial
  | fixed _ => exact absurd h (Nat.succ_ne_zero depth)
  | _ => exact h.elim

theorem Node.ClosesLinks.ends {n : Node} {limit length : Nat} (h : n.ClosesLinks limit length) :
    n.EndsLinks := by
  cases n <;> trivial

theorem Node.EndsShapes.callables {n : Node} (h : n.EndsShapes) : n.callables = [] := by
  cases n <;> first | rfl | exact h.elim

theorem Node.EndsLinks.callables {n : Node} (h : n.EndsLinks) : n.callables = [] := by
  cases n <;> first | rfl | exact h.elim

theorem Node.EndsShapes.fits {n : Node} (h : n.EndsShapes) (s : Store) (site : CallSite)
    (owner : Nat → Option CallableId) (k : Nat) :
    n.Fits s site owner k ↔ owner k ≠ none ∧ Arguments.forwardsVariadic site.args = true := by
  cases n <;> first | rfl | exact h.elim

theorem Node.EndsLinks.fits {n : Node} (h : n.EndsLinks) (s : Store) (site : CallSite)
    (owner : Nat → Option CallableId) (k : Nat) : n.Fits s site owner k ↔ owner k = none := by
  cases n <;> first | rfl | exact h.elim

namespace Chain

/-! ## Changing nodes -/

theorem addNode_run (s : Store) (i : SiteId) (n : Node) : (addNode i n).run s
    = (⟨(s.site i).nodes.size⟩, s.setNodes i ((s.site i).nodes.push n)) := by
  have hpush : (s.modifySite i fun site => { site with nodes := site.nodes.push n })
      = s.setNodes i ((s.site i).nodes.push n) := Store.modifySite_congr rfl
  rw [← hpush]
  rfl

theorem setNode_eq (s : Store) (i : SiteId) (id : NodeId) (n : Node) :
    setNode s i id n = s.setNodes i ((s.site i).nodes.setIfInBounds id.index n) :=
  Store.modifySite_congr rfl

/-- The store after a demand has been made. -/
def demanding (s : Store) (needed : Bool) : Store :=
  { s with demands := s.demands.push ⟨"caller activation not needed", !needed⟩ }

theorem newDemand_run (s : Store) (needed : Bool) :
    (Store.newDemand needed).run s = (⟨s.demands.size⟩, demanding s needed) := rfl

/-- A dispatch for a function, with what has been matched for it. -/
def freshDispatch (s : Store) (c : CallableId) (matched : MatchedArguments) : Dispatch where
  callable := c
  matched := matched
  demand := ⟨s.demands.size⟩
  splitPending := (s.callable c).wantsDedicatedCopy

/-- A fresh dispatch is up to date, whatever its demand and its split are. -/
theorem upToDate_freshDispatch {s : Store} {names : SuppliedNames} {allowReorder : Bool}
    {matched : MatchedArguments} (hmade : s.Allocated (.callable c))
    (hmatch : s.matchStandard c names allowReorder = .ok matched) (s₁ : Store) :
    (freshDispatch s₁ c matched).UpToDate s names :=
  ⟨hmade, Matching.run_respell hmatch _ _ _, fun t ht => by cases ht⟩

theorem newDispatch_run (s : Store) (c : CallableId) (matched : MatchedArguments) :
    (newDispatch c matched).run s
      = (freshDispatch s c matched, demanding s (s.callable c).wantsCaller) := rfl

/-- Adding nodes and then replacing one is one change. -/
theorem setNode_setNodes (hi : s.Allocated (.site i)) (extra : Array Node) (id : NodeId) (n : Node) :
    setNode (s.setNodes i ((s.site i).nodes ++ extra)) i id n
      = s.setNodes i (Store.extended (s.site i).nodes extra id n) := by
  rw [setNode_eq, Store.site_setNodes hi, Store.setNodes_setNodes]
  rfl

/-- A list of shapes gets a new end. -/
theorem addShapesEnd_run (s : Store) (i : SiteId) (depth limit : Nat) :
    ∃ ds last, last.ClosesShapes limit (depth + 1) ∧ (do
        if depth + 1 < limit then addNode i (.variadicVacant (depth + 1))
        else addNode i (.variadicGeneric (← Store.newDemand false)) : StoreM NodeId).run s
      = (⟨(s.site i).nodes.size⟩,
        ({ s with demands := ds }).setNodes i ((s.site i).nodes ++ #[last])) := by
  by_cases hdepth : depth + 1 < limit
  · refine ⟨s.demands, .variadicVacant (depth + 1), ⟨rfl, Or.inl hdepth⟩, ?_⟩
    rw [if_pos hdepth, addNode_run]
    rfl
  · refine ⟨(demanding s false).demands, .variadicGeneric ⟨s.demands.size⟩, Nat.le_of_not_lt hdepth, ?_⟩
    rw [if_neg hdepth, Store.run_bind_state, newDemand_run]
    exact addNode_run (demanding s false) i _

/-- Two nodes added one by one. -/
theorem addNodes_run (hi : s.Allocated (.site i)) (handler tail : Node) : (do
      let handlerId ← addNode i handler
      let next ← addNode i tail
      return (handlerId, next) : StoreM (NodeId × NodeId)).run s
    = ((⟨(s.site i).nodes.size⟩, ⟨(s.site i).nodes.size + 1⟩),
      s.setNodes i ((s.site i).nodes ++ #[handler, tail])) := by
  have hpush : ((s.site i).nodes.push handler).push tail = (s.site i).nodes ++ #[handler, tail] := rfl
  rw [Store.run_bind_state, addNode_run, Store.run_bind_state, addNode_run, Store.site_setNodes hi,
    Store.setNodes_setNodes]
  dsimp only
  rw [Array.size_push, hpush]
  rfl

/-- A chain gets a handler and a new end. -/
theorem addLink_run (hi : s.Allocated (.site i)) (handler : Node) (depth limit : Nat) :
    ∃ ds tail, tail.ClosesLinks limit (depth + 1) ∧ (do
        let tail ← if depth + 1 < limit then pure (Node.vacant (depth + 1))
          else Node.generic <$> Store.newDemand false
        let handlerId ← addNode i handler
        let next ← addNode i tail
        return (handlerId, next) : StoreM (NodeId × NodeId)).run s
      = ((⟨(s.site i).nodes.size⟩, ⟨(s.site i).nodes.size + 1⟩),
        ({ s with demands := ds }).setNodes i ((s.site i).nodes ++ #[handler, tail])) := by
  by_cases hdepth : depth + 1 < limit
  · refine ⟨s.demands, .vacant (depth + 1), ⟨rfl, Or.inl hdepth⟩, ?_⟩
    rw [if_pos hdepth]
    exact addNodes_run hi handler _
  · refine ⟨(demanding s false).demands, .generic ⟨s.demands.size⟩, Nat.le_of_not_lt hdepth, ?_⟩
    rw [if_neg hdepth]
    exact addNodes_run (s := demanding s false) hi handler _

end Chain

namespace Store

/-! ## Growing -/

/-- The node that has been put in its place is there. -/
theorem node_extended (hi : s.Allocated (.site i)) {id : NodeId} (hid : id.index < (s.site i).nodes.size)
    (extra : Array Node) (n : Node) :
    ((s.setNodes i (extended (s.site i).nodes extra id n)).site i).nodes[id.index]? = some n := by
  rw [site_setNodes hi]
  exact (getElem?_extended hid _).trans (if_pos rfl)

/-- Putting a node in the place of another, with none added. -/
theorem extended_empty (nodes : Array Node) (id : NodeId) (n : Node) :
    extended nodes #[] id n = nodes.setIfInBounds id.index n := by
  unfold extended
  rw [Array.append_empty]

/-- The end of a chain, or of a list of shapes, may be closed. -/
theorem Served.close (h : s.Served i owner) {id : NodeId} {old final : Node}
    (hold : (s.site i).nodes[id.index]? = some old)
    (hends : (old.EndsLinks ∧ final.EndsLinks) ∨ (old.EndsShapes ∧ final.EndsShapes)) :
    (s.setNodes i ((s.site i).nodes.setIfInBounds id.index final)).Served i owner
      ∧ s.Alike i (s.setNodes i ((s.site i).nodes.setIfInBounds id.index final)) := by
  have hempty : old.callables = [] := hends.elim (·.1.callables) (·.1.callables)
  have hfinal : final.callables = [] := hends.elim (·.2.callables) (·.2.callables)
  rw [← extended_empty]
  refine h.extend hold hempty (fun _ _ => rfl) h.checked ?_ (fun j x hx => by simp at hx) ?_
  · have hfits := h.fits _ _ hold
    rcases hends with ⟨hlinks, hlinks'⟩ | ⟨hshapes, hshapes'⟩
    · exact (hlinks'.fits ..).2 ((hlinks.fits ..).1 hfits)
    · exact (hshapes'.fits ..).2 ((hshapes.fits s (s.site i) owner _).1 hfits)
  · rintro x (rfl | hx) c hc
    · rw [hfinal] at hc
      cases hc
    · simp at hx

/-- **One more shape**: it stands where the list ended, and the list ends behind it. -/
theorem Served.growShapes (h : s.Served i owner) {id : NodeId} {old last : Node} {names : SuppliedNames}
    {d : Dispatch} (hold : (s.site i).nodes[id.index]? = some old) (hends : old.EndsShapes)
    (hlast : last.EndsShapes) (howner : owner id.index = some d.callable) (hdispatch : d.UpToDate s names)
    (hheld : Ref.callable d.callable ∈ s.roots) :
    ∃ owner', (s.setNodes i (extended (s.site i).nodes #[last] id
        (.variadicCase names d ⟨(s.site i).nodes.size⟩))).Served i owner'
      ∧ s.Alike i (s.setNodes i (extended (s.site i).nodes #[last] id
        (.variadicCase names d ⟨(s.site i).nodes.size⟩))) := by
  have hid : id.index < (s.site i).nodes.size := (Array.getElem?_eq_some_iff.1 hold).1
  have hforwards := ((hends.fits ..).1 (h.fits _ _ hold)).2
  have hchecked : Arguments.checkNames (s.site i).args = .ok () :=
    h.checked _ hid (by rw [howner]; exact Option.some_ne_none _)
  -- The place behind is made for the same function.
  let owner' : Nat → Option CallableId := fun k =>
    if k = (s.site i).nodes.size then some d.callable else owner k
  have hmade : ∀ k < (s.site i).nodes.size, owner' k = owner k := fun k hk =>
    if_neg (Nat.ne_of_lt hk)
  have hnew : owner' (s.site i).nodes.size = some d.callable := if_pos rfl
  refine ⟨owner', h.extend hold hends.callables hmade (fun _ _ _ => hchecked) ?_ ?_ ?_⟩
  · refine ⟨(hmade _ hid).trans howner, hforwards, ⟨hid, ?_, hnew⟩, hdispatch⟩
    show (s.site i).nodes.size < (extended (s.site i).nodes #[last] id _).size
    unfold extended
    rw [Array.size_setIfInBounds, Array.size_append]
    exact Nat.lt_succ_self _
  · intro j x hx
    rcases j with _ | j
    · obtain rfl := Option.some.inj hx
      refine (hlast.fits ..).2 ⟨?_, hforwards⟩
      rw [Nat.add_zero, hnew]
      exact Option.some_ne_none _
    · simp at hx
  · rintro x (rfl | hx) c' hc'
    · obtain rfl := List.mem_singleton.1 hc'
      exact hheld
    · obtain rfl : x = last := by simpa using hx
      rw [hlast.callables] at hc'
      cases hc'

/-- **One more link**: it stands where the chain ended, and leads to a node for its function and to a new
    end. -/
theorem Served.growLinks (h : s.Served i owner) {id : NodeId} {old handler tail : Node}
    (hold : (s.site i).nodes[id.index]? = some old) (hends : old.EndsLinks) (htail : tail.EndsLinks)
    (hchecked : Arguments.checkNames (s.site i).args = .ok ())
    (hhandler : ∀ site owner' k, site.args = (s.site i).args → owner' k = some c →
      handler.Fits s site owner' k)
    (hcallables : ∀ c' ∈ handler.callables, c' = c) (hheld : Ref.callable c ∈ s.roots) :
    ∃ owner', owner' (s.site i).nodes.size = some c
      ∧ (s.setNodes i (extended (s.site i).nodes #[handler, tail] id
        (.link c ⟨(s.site i).nodes.size⟩ ⟨(s.site i).nodes.size + 1⟩))).Served i owner'
      ∧ s.Alike i (s.setNodes i (extended (s.site i).nodes #[handler, tail] id
        (.link c ⟨(s.site i).nodes.size⟩ ⟨(s.site i).nodes.size + 1⟩))) := by
  have hid : id.index < (s.site i).nodes.size := (Array.getElem?_eq_some_iff.1 hold).1
  have howner : owner id.index = none := (hends.fits ..).1 (h.fits _ _ hold)
  -- The handler is made for the function, the new end for none.
  let owner' : Nat → Option CallableId := fun k =>
    if k = (s.site i).nodes.size then some c
    else if k = (s.site i).nodes.size + 1 then none else owner k
  have hmade : ∀ k < (s.site i).nodes.size, owner' k = owner k := fun k hk =>
    (if_neg (by omega)).trans (if_neg (by omega))
  have hnew : owner' (s.site i).nodes.size = some c := if_pos rfl
  have hend : owner' ((s.site i).nodes.size + 1) = none := (if_neg (by omega)).trans (if_pos rfl)
  have hsize : ∀ n, (extended (s.site i).nodes #[handler, tail] id n).size = (s.site i).nodes.size + 2 := by
    intro n
    unfold extended
    rw [Array.size_setIfInBounds, Array.size_append]
    rfl
  refine ⟨owner', hnew, h.extend hold hends.callables hmade (fun _ _ _ => hchecked) ?_ ?_ ?_⟩
  · refine ⟨(hmade _ hid).trans howner, ⟨hid, ?_, hnew⟩, ⟨Nat.lt_succ_of_lt hid, ?_, hend⟩⟩
    · exact Nat.lt_of_lt_of_eq (Nat.lt_add_of_pos_right Nat.two_pos) (hsize _).symm
    · exact Nat.lt_of_lt_of_eq (Nat.lt_succ_self _) (hsize _).symm
  · intro j x hx
    rcases j with _ | _ | j
    · obtain rfl := Option.some.inj hx
      exact hhandler _ _ _ rfl hnew
    · obtain rfl := Option.some.inj hx
      exact (htail.fits ..).2 hend
    · simp at hx
  · rintro x (rfl | hx) c' hc'
    · obtain rfl := List.mem_singleton.1 hc'
      exact hheld
    · rcases (by simpa using hx : x = handler ∨ x = tail) with rfl | rfl
      · rw [hcallables c' hc']
        exact hheld
      · rw [htail.callables] at hc'
        cases hc'

end Store

end ScopeCall
