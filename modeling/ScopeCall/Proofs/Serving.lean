import ScopeCall.Proofs.Gathering

/-!
# `ScopeCall.Proofs.Serving` — what the nodes of a call site may be relied on for

A node behind a link has been made for one function. Links are followed to nodes of the function that is
called, and what has been matched there is what a match made now would give: formals never change, and
matching looks at nothing else that can.

## Contents
- **Dispatches.** `Dispatch.UpToDate`.
- **Nodes.** `Node.Fits`, and `Store.Served`, the invariant of a site.
- **Following.** `Served.follow` and `Served.followShapes`.
- **Replacing nodes.** `Served.setNodes`, and `alike_setNodes`.
-/

namespace ScopeCall

variable {s s' : Store} {i : SiteId} {c : CallableId}

/-! ## Dispatches -/

/-- The body that a target runs. -/
def Store.bodyOf (s : Store) (t : TargetId) : BodyId := (s.target t).body

/-- What has been matched is what a match of these names gives now, and the copy is one of the body that
    the function runs now. -/
structure Dispatch.UpToDate (s : Store) (names : SuppliedNames) (d : Dispatch) : Prop where
  made : s.Allocated (.callable d.callable)
  matched : s.matchStandard d.callable names d.matched.allowsReorder = .ok d.matched
  dedicated : ∀ t, d.dedicated = some t → t.index < s.targets.size
    ∧ some (s.bodyOf t) = (s.callable d.callable).target?.map s.bodyOf

namespace Store

/-- A match stays what it is while functions keep their formals. -/
theorem Meanwhile.matchStandard (h : s.Meanwhile i s') (hc : s.Allocated (.callable c))
    {names : SuppliedNames} {allowReorder allowReorder' : Bool} {m : MatchedArguments}
    (hmatch : s.matchStandard c names allowReorder = .ok m) :
    s'.matchStandard c names allowReorder' = .ok { m with allowsReorder := allowReorder' } := by
  have hformals : (s'.callable c).formals = (s.callable c).formals := by
    rw [h.callable c hc]
  unfold Store.matchStandard
  rw [hformals]
  exact Matching.run_respell hmatch _ _ _

theorem Meanwhile.target? (h : s.Meanwhile i s') (hc : s.Allocated (.callable c)) :
    (s'.callable c).target? = (s.callable c).target? := by
  rw [h.callable c hc]
  rfl

/-- A function keeps running the same body. -/
theorem Meanwhile.bodyOf (h : s.Meanwhile i s') (hbodies : s.BodiesExist)
    (hc : s.Allocated (.callable c)) :
    (s'.callable c).target?.map s'.bodyOf = (s.callable c).target?.map s.bodyOf := by
  rw [h.target? hc]
  cases ht : (s.callable c).target? with
  | none => rfl
  | some t => exact congrArg some (h.body t (hbodies c t ht))

end Store

theorem Dispatch.UpToDate.meanwhile {names : SuppliedNames} {d : Dispatch} (h : d.UpToDate s names)
    (hs : s.Meanwhile i s') (hbodies : s.BodiesExist) : d.UpToDate s' names where
  made := Nat.lt_of_lt_of_le h.made hs.callables
  matched := hs.matchStandard h.made h.matched
  dedicated t ht := by
    obtain ⟨hlt, hbody⟩ := h.dedicated t ht
    refine ⟨Nat.lt_of_lt_of_le hlt hs.targets, ?_⟩
    rw [hs.bodyOf hbodies h.made, ← hbody]
    exact congrArg some (hs.body t hlt)

/-! ## Nodes -/

/-- A place behind another one, that is made for a function, or for none. -/
def CallSite.Behind (site : CallSite) (owner : Nat → Option CallableId) (k : Nat) (id : NodeId)
    (made : Option CallableId) : Prop :=
  k < id.index ∧ id.index < site.nodes.size ∧ owner id.index = made

/-- A node fits in its place. Links, and what ends a chain of links, are made for no function; all other
    places are made for the function whose link leads there. -/
def Node.Fits (s : Store) (site : CallSite) (owner : Nat → Option CallableId) (k : Nat) : Node → Prop
  | .vacant _ | .generic _ => owner k = none
  | .link c handler next =>
    owner k = none ∧ site.Behind owner k handler (some c) ∧ site.Behind owner k next none
  | .fixed d =>
    owner k = some d.callable ∧ Arguments.forwardsVariadic site.args = false
      ∧ d.UpToDate s (Arguments.staticNames site.args)
  | .variadicVacant _ | .variadicGeneric _ =>
    owner k ≠ none ∧ Arguments.forwardsVariadic site.args = true
  | .variadicCase names d next =>
    owner k = some d.callable ∧ Arguments.forwardsVariadic site.args = true
      ∧ site.Behind owner k next (some d.callable) ∧ d.UpToDate s names

/-- What a node fits for does not change while places stay made for what they were made for. -/
theorem Node.Fits.transfer {n : Node} {site site' : CallSite} {owner owner' : Nat → Option CallableId}
    {k : Nat} (h : n.Fits s site owner k) (hargs : site'.args = site.args) (hmade : owner' k = owner k)
    (hbehind : ∀ id made, site.Behind owner k id made → site'.Behind owner' k id made)
    (hdispatch : ∀ names (d : Dispatch), d.UpToDate s names → d.UpToDate s' names) :
    n.Fits s' site' owner' k := by
  cases n with
  | vacant depth => exact hmade.trans h
  | generic demand => exact hmade.trans h
  | link c handler next =>
      exact ⟨hmade.trans h.1, hbehind _ _ h.2.1, hbehind _ _ h.2.2⟩
  | fixed d =>
      unfold Node.Fits
      rw [hargs]
      exact ⟨hmade.trans h.1, h.2.1, hdispatch _ d h.2.2⟩
  | variadicVacant depth =>
      unfold Node.Fits
      rw [hargs, hmade]
      exact h
  | variadicGeneric demand =>
      unfold Node.Fits
      rw [hargs, hmade]
      exact h
  | variadicCase names d next =>
      unfold Node.Fits
      rw [hargs]
      exact ⟨hmade.trans h.1, h.2.1, hbehind _ _ h.2.2.1, hdispatch _ d h.2.2.2⟩

namespace Store

/-- The nodes of a site that matches by the standard rules are in order. -/
structure Served (s : Store) (i : SiteId) (owner : Nat → Option CallableId) : Prop where
  site : s.Allocated (.site i)
  standard : (s.site i).matcher = .standard
  bodies : s.BodiesExist
  root : 0 < (s.site i).nodes.size ∧ owner 0 = none
  checked : ∀ k, k < (s.site i).nodes.size → owner k ≠ none →
    Arguments.checkNames (s.site i).args = .ok ()
  fits : ∀ (k : Nat) (n : Node), (s.site i).nodes[k]? = some n → n.Fits s (s.site i) owner k

variable {owner : Nat → Option CallableId}

theorem Served.meanwhile (h : s.Served i owner) (hs : s.Meanwhile i s') : s'.Served i owner where
  site := Nat.lt_of_lt_of_le h.site hs.sites
  standard := hs.site ▸ h.standard
  bodies := hs.bodies h.bodies
  root := hs.site ▸ h.root
  checked := hs.site ▸ h.checked
  fits k n hn := by
    rw [hs.site] at hn ⊢
    exact (h.fits k n hn).transfer rfl rfl (fun _ _ => id) fun _ _ hd => hd.meanwhile hs h.bodies

/-! ## Following -/

theorem node_eq {nodes : Array Node} {id : NodeId} {n : Node} (h : nodes[id.index]? = some n) :
    Chain.node nodes id = .ok n := by
  unfold Chain.node
  rw [h]

/-- **Following the links comes to a node for the function**, or to the end of the chain. -/
theorem Served.follow (h : s.Served i owner) (c : CallableId) (fuel : Nat) (id : NodeId)
    (hid : id.index < (s.site i).nodes.size) (hfuel : (s.site i).nodes.size < fuel + id.index)
    (howner : owner id.index = none ∨ owner id.index = some c) :
    ∃ id' n, Chain.follow (s.site i).nodes c fuel id = .ok (id', n)
      ∧ (s.site i).nodes[id'.index]? = some n ∧ (owner id'.index = none ∨ owner id'.index = some c)
      ∧ ∀ c' handler next, n ≠ .link c' handler next := by
  induction fuel generalizing id with
  | zero => omega
  | succ fuel ih =>
      obtain ⟨n, hn⟩ : ∃ n, (s.site i).nodes[id.index]? = some n :=
        ⟨_, Array.getElem?_eq_getElem hid⟩
      have hfits := h.fits _ _ hn
      have hstop : (∀ c' handler next, n ≠ .link c' handler next) →
          Chain.follow (s.site i).nodes c (fuel + 1) id = .ok (id, n) := fun hlink => by
        unfold Chain.follow
        rw [node_eq hn]
        cases n with
        | link c' handler next => exact absurd rfl (hlink c' handler next)
        | _ => rfl
      cases n with
      | link c' handler next =>
          have hgo : Chain.follow (s.site i).nodes c (fuel + 1) id
              = Chain.follow (s.site i).nodes c fuel (if c' = c then handler else next) := by
            rw [Chain.follow, node_eq hn]
            rfl
          obtain ⟨-, ⟨hlt, hin, hmade⟩, hlt', hin', hmade'⟩ := hfits
          rw [hgo]
          by_cases hc : c' = c
          · rw [if_pos hc]
            exact ih handler hin (by omega) (Or.inr (hc ▸ hmade))
          · rw [if_neg hc]
            exact ih next hin' (by omega) (Or.inl hmade')
      | _ => exact ⟨id, _, hstop (by simp), hn, howner, by simp⟩

/-- **Following the shapes comes to one for these names**, or to the end of the list. -/
theorem Served.followShapes (h : s.Served i owner) (names : SuppliedNames) (fuel : Nat) (id : NodeId)
    (hid : id.index < (s.site i).nodes.size) (hfuel : (s.site i).nodes.size < fuel + id.index)
    (howner : owner id.index = some c) (hforwards : Arguments.forwardsVariadic (s.site i).args = true) :
    ∃ id' n, Chain.followShapes (s.site i).nodes names fuel id = .ok (id', n)
      ∧ (s.site i).nodes[id'.index]? = some n ∧ owner id'.index = some c
      ∧ ((∃ d next, n = .variadicCase names d next) ∨ (∃ depth, n = .variadicVacant depth)
        ∨ ∃ demand, n = .variadicGeneric demand) := by
  induction fuel generalizing id with
  | zero => omega
  | succ fuel ih =>
      obtain ⟨n, hn⟩ : ∃ n, (s.site i).nodes[id.index]? = some n :=
        ⟨_, Array.getElem?_eq_getElem hid⟩
      have hfits := h.fits _ _ hn
      cases n with
      | variadicCase cached d next =>
          obtain ⟨hmade, -, ⟨hlt, hin, hbehind⟩, -⟩ := hfits
          have hgo : Chain.followShapes (s.site i).nodes names (fuel + 1) id
              = if cached = names then .ok (id, .variadicCase cached d next)
                else Chain.followShapes (s.site i).nodes names fuel next := by
            rw [Chain.followShapes, node_eq hn]
            rfl
          by_cases hnames : cached = names
          · subst hnames
            rw [hgo, if_pos rfl]
            exact ⟨id, _, rfl, hn, howner, Or.inl ⟨d, next, rfl⟩⟩
          · rw [hgo, if_neg hnames]
            exact ih next hin (by omega) (hbehind.trans (hmade.symm.trans howner))
      | variadicVacant depth =>
          refine ⟨id, _, ?_, hn, howner, Or.inr (Or.inl ⟨depth, rfl⟩)⟩
          rw [Chain.followShapes, node_eq hn]
          rfl
      | variadicGeneric demand =>
          refine ⟨id, _, ?_, hn, howner, Or.inr (Or.inr ⟨demand, rfl⟩)⟩
          rw [Chain.followShapes, node_eq hn]
          rfl
      | fixed d => exact absurd (hforwards.symm.trans hfits.2.1) (by simp)
      | vacant depth => exact absurd (howner.symm.trans hfits) (by simp)
      | generic demand => exact absurd (howner.symm.trans hfits) (by simp)
      | link c' handler next => exact absurd (howner.symm.trans hfits.1) (by simp)

/-! ## Replacing nodes -/

/-- The store with other nodes at a site. -/
def setNodes (s : Store) (i : SiteId) (nodes : Array Node) : Store :=
  s.modifySite i fun site => { site with nodes }

theorem site_modifySite (s : Store) (i j : SiteId) (f : CallSite → CallSite) :
    (s.modifySite i f).site j
      = if j = i ∧ s.Allocated (.site i) then f (s.site i) else s.site j := by
  rcases i with ⟨i⟩
  rcases j with ⟨j⟩
  simpa [Store.site, modifySite, Allocated] using Array.getD_modify s.sites i j f

theorem modifySite_congr {f g : CallSite → CallSite} (h : f (s.site i) = g (s.site i)) :
    s.modifySite i f = s.modifySite i g := by
  have hsites : s.sites.modify i.index f = s.sites.modify i.index g := by
    apply Array.ext_getElem?
    intro j
    rw [Array.getElem?_modify, Array.getElem?_modify]
    by_cases hj : i.index = j
    · subst hj
      unfold Store.site at h
      cases hx : s.sites[i.index]? with
      | none => rfl
      | some x =>
          rw [hx] at h
          rw [if_pos rfl, if_pos rfl]
          exact congrArg some h
    · rw [if_neg hj, if_neg hj]
  unfold modifySite
  rw [hsites]

theorem setNodes_setNodes (s : Store) (i : SiteId) (nodes nodes' : Array Node) :
    (s.setNodes i nodes).setNodes i nodes' = s.setNodes i nodes' := by
  have hsites : ((s.sites.modify i.index fun site => { site with nodes }).modify i.index
      fun site => { site with nodes := nodes' }) = s.sites.modify i.index
        fun site => { site with nodes := nodes' } := by
    apply Array.ext_getElem?
    intro j
    rw [Array.getElem?_modify, Array.getElem?_modify, Array.getElem?_modify]
    by_cases hj : i.index = j
    · rw [if_pos hj, if_pos hj, if_pos hj, Option.map_map]
      rfl
    · rw [if_neg hj, if_neg hj, if_neg hj]
  unfold setNodes modifySite
  rw [hsites]

theorem site_setNodes (hi : s.Allocated (.site i)) (nodes : Array Node) :
    (s.setNodes i nodes).site i = { s.site i with nodes } := by
  unfold setNodes
  rw [site_modifySite, if_pos ⟨rfl, hi⟩]

theorem refs_setNodes (hi : s.Allocated (.site i)) (nodes : Array Node) (r : Ref) :
    r ∈ (s.setNodes i nodes).refs (.site i)
      ↔ r ∈ (s.site i).callee.refs ++ (s.site i).args.flatMap ArgSpec.refs
        ∨ ∃ n ∈ nodes, ∃ c ∈ n.callables, Ref.callable c = r := by
  have hi' : (s.setNodes i nodes).Allocated (.site i) := by
    have hsize : (s.setNodes i nodes).sites.size = s.sites.size := Array.size_modify
    simpa only [Allocated, hsize] using hi
  rw [refs_site hi', site_setNodes hi, CallSite.refs, List.mem_append]
  simp

/-- **Replacing nodes changes nothing that can be seen**, if no function is kept less than before, and none
    more that is not held. -/
theorem alike_setNodes (hi : s.Allocated (.site i)) {nodes : Array Node}
    (hkeeps : ∀ n ∈ (s.site i).nodes, ∀ c ∈ n.callables, ∃ n' ∈ nodes, c ∈ n'.callables)
    (hadds : ∀ n ∈ nodes, ∀ c ∈ n.callables,
      (∃ n' ∈ (s.site i).nodes, c ∈ n'.callables) ∨ Ref.callable c ∈ s.roots) :
    s.Alike i (s.setNodes i nodes) := by
  have hself : s.setNodes i (s.site i).nodes = s := by
    have hsame : s.setNodes i (s.site i).nodes = s.modifySite i id := modifySite_congr rfl
    rw [hsame]
    unfold modifySite
    have hsites : s.sites.modify i.index id = s.sites := by
      apply Array.ext_getElem?
      intro j
      rw [Array.getElem?_modify]
      split
      · exact Option.map_id_apply
      · rfl
    rw [hsites]
  have hrefs := refs_setNodes hi (s.site i).nodes
  rw [hself] at hrefs
  refine ⟨rfl, Array.size_modify, fun j hj => ?_, ?_, rfl, fun _ => rfl, le_rfl, fun _ _ => rfl,
    fun _ => Iff.rfl, fun r hr => ?_, fun r hr => ?_⟩
  · unfold setNodes
    rw [site_modifySite, if_neg fun h => hj h.1]
  · rw [site_setNodes hi]
  · rw [refs_setNodes hi]
    refine ((hrefs r).1 hr).imp_right ?_
    rintro ⟨n, hn, c, hc, rfl⟩
    obtain ⟨n', hn', hc'⟩ := hkeeps n hn c hc
    exact ⟨n', hn', c, hc', rfl⟩
  · rcases (refs_setNodes hi nodes r).1 hr with hin | ⟨n, hn, c, hc, rfl⟩
    · exact Or.inl ((hrefs r).2 (Or.inl hin))
    · rcases hadds n hn c hc with ⟨n', hn', hc'⟩ | hheld
      · exact Or.inl ((hrefs _).2 (Or.inr ⟨n', hn', c, hc', rfl⟩))
      · exact Or.inr hheld

/-- Nodes that fit in their places may be added, and put in the place of others. -/
theorem Served.setNodes (h : s.Served i owner) {nodes : Array Node} {owner' : Nat → Option CallableId}
    (hsize : (s.site i).nodes.size ≤ nodes.size)
    (hmade : ∀ k < (s.site i).nodes.size, owner' k = owner k)
    (hchecked : ∀ k < nodes.size, owner' k ≠ none →
      Arguments.checkNames (s.site i).args = .ok ())
    (hfits : ∀ (k : Nat) (n : Node), nodes[k]? = some n →
      (s.site i).nodes[k]? = some n ∨ n.Fits s { s.site i with nodes } owner' k) :
    (s.setNodes i nodes).Served i owner' := by
  have hsite := site_setNodes h.site nodes
  have hdispatch : ∀ names (d : Dispatch), d.UpToDate s names → d.UpToDate (s.setNodes i nodes) names :=
    fun names d hd => ⟨hd.made, hd.matched, hd.dedicated⟩
  constructor
  case site =>
    have hsites : (s.setNodes i nodes).sites.size = s.sites.size := Array.size_modify
    simpa only [Allocated, hsites] using h.site
  case bodies => exact h.bodies
  case standard =>
    rw [hsite]
    exact h.standard
  case root =>
    rw [hsite]
    exact ⟨Nat.lt_of_lt_of_le h.root.1 hsize, (hmade 0 h.root.1).trans h.root.2⟩
  case checked =>
    rw [hsite]
    exact hchecked
  case fits =>
    intro k n hn
    rw [hsite] at hn ⊢
    rcases hfits k n hn with hold | hnew
    · have hk : k < (s.site i).nodes.size := (Array.getElem?_eq_some_iff.1 hold).1
      refine (h.fits k n hold).transfer rfl (hmade k hk) ?_ hdispatch
      rintro id made ⟨hlt, hin, heq⟩
      exact ⟨hlt, Nat.lt_of_lt_of_le hin hsize, (hmade _ hin).trans heq⟩
    · exact hnew.transfer rfl rfl (fun _ _ => id) hdispatch

/-- The nodes after some have been added, and one has been replaced. -/
def extended (nodes extra : Array Node) (id : NodeId) (n : Node) : Array Node :=
  (nodes ++ extra).setIfInBounds id.index n

theorem getElem?_extended {nodes extra : Array Node} {id : NodeId} {n : Node}
    (hid : id.index < nodes.size) (k : Nat) : (extended nodes extra id n)[k]?
      = if k = id.index then some n
        else if k < nodes.size then nodes[k]? else extra[k - nodes.size]? := by
  unfold extended
  rw [Array.getElem?_setIfInBounds, Array.getElem?_append, Array.size_append]
  by_cases hk : k = id.index
  · subst hk
    rw [if_pos rfl, if_pos rfl, if_pos (by omega)]
  · rw [if_neg (Ne.symm hk), if_neg hk]

/-- **A chain grows in good order**: the end of it makes way for a node that fits, and what is added fits
    as well. -/
theorem Served.extend (h : s.Served i owner) {id : NodeId} {old n : Node} {extra : Array Node}
    {owner' : Nat → Option CallableId} (hold : (s.site i).nodes[id.index]? = some old)
    (hempty : old.callables = []) (hmade : ∀ k < (s.site i).nodes.size, owner' k = owner k)
    (hchecked : ∀ k < (s.site i).nodes.size + extra.size, owner' k ≠ none →
      Arguments.checkNames (s.site i).args = .ok ())
    (hn : n.Fits s { s.site i with nodes := extended (s.site i).nodes extra id n } owner' id.index)
    (hextra : ∀ (j : Nat) (x : Node), extra[j]? = some x →
      x.Fits s { s.site i with nodes := extended (s.site i).nodes extra id n } owner'
        ((s.site i).nodes.size + j))
    (hheld : ∀ x, x = n ∨ x ∈ extra → ∀ c ∈ x.callables, Ref.callable c ∈ s.roots) :
    (s.setNodes i (extended (s.site i).nodes extra id n)).Served i owner'
      ∧ s.Alike i (s.setNodes i (extended (s.site i).nodes extra id n)) := by
  have hid : id.index < (s.site i).nodes.size := (Array.getElem?_eq_some_iff.1 hold).1
  have hsize : (extended (s.site i).nodes extra id n).size = (s.site i).nodes.size + extra.size := by
    unfold extended
    rw [Array.size_setIfInBounds, Array.size_append]
  have hget : ∀ k : Nat, (extended (s.site i).nodes extra id n)[k]? = _ := getElem?_extended hid
  constructor
  · refine h.setNodes (by omega) hmade (fun k hk => hchecked k (hsize ▸ hk)) fun k x hx => ?_
    rw [hget] at hx
    split at hx
    · rename_i hk
      obtain rfl := Option.some.inj hx
      exact Or.inr (hk ▸ hn)
    · split at hx
      · exact Or.inl hx
      · rename_i hk
        have hplace := hextra _ x hx
        rw [Nat.add_sub_cancel' (Nat.le_of_not_lt hk)] at hplace
        exact Or.inr hplace
  · apply alike_setNodes h.site
    · intro x hx c hc
      obtain ⟨k, hk, rfl⟩ := Array.mem_iff_getElem.1 hx
      have hxk : (extended (s.site i).nodes extra id n)[k]? = some (s.site i).nodes[k] := by
        rw [hget, if_neg, if_pos hk, Array.getElem?_eq_getElem hk]
        rintro rfl
        have hsame := Option.some.inj ((Array.getElem?_eq_getElem hk).symm.trans hold)
        rw [hsame, hempty] at hc
        exact List.not_mem_nil hc
      exact ⟨_, Array.mem_of_getElem? hxk, hc⟩
    · intro x hx c hc
      obtain ⟨k, hk, heq⟩ := Array.mem_iff_getElem.1 hx
      have hxk := (Array.getElem?_eq_getElem hk).trans (congrArg some heq)
      rw [hget] at hxk
      split at hxk
      · exact Or.inr (hheld x (Or.inl (Option.some.inj hxk).symm) c hc)
      · split at hxk
        · exact Or.inl ⟨x, Array.mem_of_getElem? hxk, hc⟩
        · exact Or.inr (hheld x (Or.inr (Array.mem_of_getElem? hxk)) c hc)

end Store

end ScopeCall
