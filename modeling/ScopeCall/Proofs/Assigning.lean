import ScopeCall.Proofs.Chaining
import ScopeCall.Proofs.Preparing

/-!
# `ScopeCall.Proofs.Assigning` — calls come to the function that was called

Whoever matches the arguments of a call site, each node behind a link is for the function of the link, and nodes
lead to later nodes only. So following the nodes for a function never fails, and ends at one for the function. A
call may fail before its callee gets control: where a name is unbound or arguments are refused, but never because
a node is missing.

## Contents
- **Nodes.** `Node.Belongs` and `Chain.Assigned`.
- **Following.** `Assigned.follow` and `Assigned.followShapes`.
- **Changes.** `Assigned.step`: every change of nodes keeps them assigned.
- **Faults.** `EvalError.Ordinary`: whatever a preparation does besides following nodes fails with no fault.
- **Preparation.** `Chain.ComesTo`, and `Chain.comesTo_prepare`.
-/

namespace ScopeCall

/-! ## Nodes -/

/-- A place behind another one, among so many, that is for a function, or for none. -/
def NodeId.Behind (size : Nat) (owner : Nat → Option CallableId) (k : Nat) (made : Option CallableId)
    (id : NodeId) : Prop :=
  k < id.index ∧ id.index < size ∧ owner id.index = made

/-- A node is for the function that its place is for. Links, and what ends a chain of links, are for no function;
    shapes are only where arguments are forwarded. -/
def Node.Belongs (args : Arguments) (size : Nat) (owner : Nat → Option CallableId) (k : Nat) : Node → Prop
  | .vacant _ | .generic _ => owner k = none
  | .link c handler next =>
    owner k = none ∧ handler.Behind size owner k (some c) ∧ next.Behind size owner k none
  | .fixed d => owner k = some d.callable ∧ Arguments.forwardsVariadic args = false
  | .variadicVacant _ | .variadicGeneric _ => owner k ≠ none ∧ Arguments.forwardsVariadic args = true
  | .variadicCase _ d next =>
    owner k = some d.callable ∧ Arguments.forwardsVariadic args = true
      ∧ next.Behind size owner k (some d.callable)

/-- Places stay for what they are for where more are added. -/
theorem Node.Belongs.grow {n : Node} {args : Arguments} {size size' k : Nat}
    {owner owner' : Nat → Option CallableId} (h : n.Belongs args size owner k) (hsize : size ≤ size')
    (hmade : ∀ j < size, owner' j = owner j) (hk : k < size) : n.Belongs args size' owner' k := by
  have hbehind : ∀ {id : NodeId} {made}, id.Behind size owner k made → id.Behind size' owner' k made :=
    fun ⟨hlt, hin, heq⟩ => ⟨hlt, Nat.lt_of_lt_of_le hin hsize, (hmade _ hin).trans heq⟩
  cases n with
  | link c handler next => exact ⟨(hmade k hk).trans h.1, hbehind h.2.1, hbehind h.2.2⟩
  | variadicCase names d next => exact ⟨(hmade k hk).trans h.1, h.2.1, hbehind h.2.2⟩
  | vacant depth => exact (hmade k hk).trans h
  | generic demand => exact (hmade k hk).trans h
  | fixed d => exact ⟨(hmade k hk).trans h.1, h.2⟩
  | variadicVacant depth => exact ⟨(hmade k hk).symm ▸ h.1, h.2⟩
  | variadicGeneric demand => exact ⟨(hmade k hk).symm ▸ h.1, h.2⟩

theorem Node.EndsLinks.belongs {n : Node} (h : n.EndsLinks) {args : Arguments} {size k : Nat}
    {owner : Nat → Option CallableId} (hmade : owner k = none) : n.Belongs args size owner k := by
  cases n <;> first | exact h.elim | exact hmade

theorem Node.EndsShapes.belongs {n : Node} (h : n.EndsShapes) {args : Arguments} {size k : Nat}
    {owner : Nat → Option CallableId} (hmade : owner k ≠ none)
    (hforwards : Arguments.forwardsVariadic args = true) : n.Belongs args size owner k := by
  cases n <;> first | exact h.elim | exact ⟨hmade, hforwards⟩

namespace Chain

variable {σ α β : Type} {nodes nodes' extra : Array Node} {owner owner' : Nat → Option CallableId}
  {args : Arguments} {limits : CacheLimits} {c : CallableId} {id start : NodeId} {fits : Prop} {old n : Node}
  {names : SuppliedNames} {getters : Getters σ} {i : SiteId} {caller : ActivationId} {m : Machine σ}

/-- Each node is for the function that its place is for. -/
structure Assigned (args : Arguments) (nodes : Array Node) (owner : Nat → Option CallableId) : Prop where
  root : 0 < nodes.size ∧ owner 0 = none
  belongs : ∀ (k : Nat) (n : Node), nodes[k]? = some n → n.Belongs args nodes.size owner k

theorem assigned_new (args : Arguments) : Assigned args #[.vacant 0] fun _ => none where
  root := ⟨Nat.one_pos, rfl⟩
  belongs k n hn := by
    rcases k with _ | k
    · obtain rfl := Option.some.inj hn
      exact rfl
    · simp at hn

namespace Assigned

/-! ## Following -/

/-- **Following the links comes to a node for the function**, or to the end of the chain. Nodes lead to later
    nodes, so it takes no more steps than there are nodes. -/
theorem follow (h : Assigned args nodes owner) (c : CallableId) (fuel : Nat) (id : NodeId)
    (hid : id.index < nodes.size) (hfuel : nodes.size < fuel + id.index)
    (howner : owner id.index = none ∨ owner id.index = some c) :
    ∃ id' n, Chain.follow nodes c fuel id = .ok (id', n) ∧ n.asLink = none
      ∧ (owner id'.index = none ∨ owner id'.index = some c) := by
  induction fuel generalizing id with
  | zero => omega
  | succ fuel ih =>
      obtain ⟨n, hn⟩ : ∃ n, nodes[id.index]? = some n := ⟨_, Array.getElem?_eq_getElem hid⟩
      rw [follow_succ c fuel hn]
      cases n with
      | link callee handler next =>
          obtain ⟨-, ⟨hlt, hin, hmade⟩, hlt', hin', hmade'⟩ := h.belongs _ _ hn
          dsimp only
          split
          · rename_i hc
            exact ih handler hin (by omega) (Or.inr (hc ▸ hmade))
          · exact ih next hin' (by omega) (Or.inl hmade')
      | _ => exact ⟨id, _, rfl, rfl, howner⟩

/-- **Following the shapes comes to one for these names**, or to the end of the list. -/
theorem followShapes (h : Assigned args nodes owner) (names : SuppliedNames) (fuel : Nat) (id : NodeId)
    (hid : id.index < nodes.size) (hfuel : nodes.size < fuel + id.index) (howner : owner id.index = some c)
    (hforwards : Arguments.forwardsVariadic args = true) :
    ∃ id' n, Chain.followShapes nodes names fuel id = .ok (id', n) ∧ owner id'.index = some c
      ∧ ((∃ d next, n = .variadicCase names d next ∧ d.callable = c) ∨ (∃ depth, n = .variadicVacant depth)
        ∨ ∃ demand, n = .variadicGeneric demand) := by
  induction fuel generalizing id with
  | zero => omega
  | succ fuel ih =>
      obtain ⟨n, hn⟩ : ∃ n, nodes[id.index]? = some n := ⟨_, Array.getElem?_eq_getElem hid⟩
      have hbelongs := h.belongs _ _ hn
      rw [followShapes_succ names fuel hn]
      cases n with
      | variadicCase cached d next =>
          obtain ⟨hmade, -, hlt, hin, hbehind⟩ := hbelongs
          have hcallable : d.callable = c := Option.some.inj (hmade.symm.trans howner)
          dsimp only
          split
          · rename_i hnames
            subst hnames
            exact ⟨id, _, rfl, howner, Or.inl ⟨d, next, rfl, hcallable⟩⟩
          · exact ih next hin (by omega) (hcallable ▸ hbehind)
      | variadicVacant depth => exact ⟨id, _, rfl, howner, Or.inr (Or.inl ⟨depth, rfl⟩)⟩
      | variadicGeneric demand => exact ⟨id, _, rfl, howner, Or.inr (Or.inr ⟨demand, rfl⟩)⟩
      | fixed d => exact absurd (hforwards.symm.trans hbelongs.2) (by simp)
      | vacant depth => exact absurd (howner.symm.trans hbelongs) (by simp)
      | generic demand => exact absurd (howner.symm.trans hbelongs) (by simp)
      | link callee handler next => exact absurd (howner.symm.trans hbelongs.1) (by simp)

/-- Where a call of a function looks for shapes, and finds the end of a list, the list is for the function. -/
theorem owner_of_vacant (h : Assigned args nodes owner) (hstart : HandledAt nodes c start) {depth : Nat}
    (hfollow : Chain.followShapes nodes names (nodes.size + 1) start = .ok (id, .variadicVacant depth)) :
    owner id.index = some c ∧ Arguments.forwardsVariadic args = true := by
  obtain ⟨-, hforwards⟩ := h.belongs _ _ (node_of_followShapes hfollow)
  obtain ⟨n, -, hn, -⟩ := exists_of_followShapes hfollow
  have hlt : start.index < nodes.size := (Array.getElem?_eq_some_iff.1 hn).1
  have howner : owner start.index = none ∨ owner start.index = some c := by
    rcases hstart with ⟨n', hn'⟩ | ⟨k, next, hlink⟩
    · obtain ⟨id', n'', hfound, -, howner⟩ := h.follow c (nodes.size + 1) .root h.root.1 (by omega)
        (Or.inl h.root.2)
      obtain ⟨rfl, rfl⟩ := Prod.mk.inj (Except.ok.inj (hn'.symm.trans hfound))
      exact howner
    · exact Or.inr (h.belongs _ _ hlink).2.1.2.2
  rcases howner with hnone | hsome
  · -- A node for no function is no shape, and does not lead to one.
    have hbelongs := h.belongs _ _ hn
    rw [followShapes_succ names nodes.size hn] at hfollow
    cases n with
    | variadicCase cached d next => exact absurd (hnone.symm.trans hbelongs.1) (by simp)
    | variadicVacant depth' => exact absurd hnone hbelongs.1
    | _ => cases hfollow
  · obtain ⟨id', n', hfound, howner, -⟩ := h.followShapes names (nodes.size + 1) start hlt (by omega) hsome hforwards
    obtain ⟨rfl, -⟩ := Prod.mk.inj (Except.ok.inj (hfollow.symm.trans hfound))
    exact ⟨howner, hforwards⟩

/-! ## Changes -/

/-- Nodes stay assigned where one is replaced by a node for the same, and nodes are added for what is behind it. -/
theorem extend (h : Assigned args nodes owner) (hold : nodes[id.index]? = some old)
    (hmade : ∀ k < nodes.size, owner' k = owner k)
    (hn : n.Belongs args (nodes.size + extra.size) owner' id.index)
    (hextra : ∀ (j : Nat) (x : Node), extra[j]? = some x →
      x.Belongs args (nodes.size + extra.size) owner' (nodes.size + j)) :
    Assigned args (Store.extended nodes extra id n) owner' := by
  have hid : id.index < nodes.size := (Array.getElem?_eq_some_iff.1 hold).1
  constructor
  · rw [size_extended]
    exact ⟨Nat.add_pos_left h.root.1 _, (hmade 0 h.root.1).trans h.root.2⟩
  · intro k x hx
    rw [size_extended]
    rw [Store.getElem?_extended hid] at hx
    split at hx
    · rename_i hk
      obtain rfl := Option.some.inj hx
      exact hk ▸ hn
    · split at hx
      · rename_i hk
        exact (h.belongs k x hx).grow (Nat.le_add_right _ _) hmade hk
      · rename_i hk
        have hplace := hextra _ x hx
        rwa [Nat.add_sub_cancel' (Nat.le_of_not_lt hk)] at hplace

theorem redispatch (h : Assigned args nodes owner) (hn : nodes[id.index]? = some n) {d d' : Dispatch}
    (hd : dispatchOf? n = some d) (hcallable : d'.callable = d.callable) :
    Assigned args (nodes.modify id.index (withDispatch d')) owner := by
  have hbelongs := h.belongs _ _ hn
  refine ⟨by rw [Array.size_modify]; exact h.root, fun k x hx => ?_⟩
  rw [Array.size_modify]
  rw [Array.getElem?_modify] at hx
  split at hx
  · rename_i hk
    rw [← hk, hn] at hx
    obtain rfl := Option.some.inj hx
    rw [← hk]
    rcases dispatchOf?_eq_some hd with rfl | ⟨cached, next, rfl⟩
    · exact ⟨hcallable ▸ hbelongs.1, hbelongs.2⟩
    · exact ⟨hcallable ▸ hbelongs.1, hbelongs.2.1, hcallable ▸ hbelongs.2.2⟩
  · exact h.belongs k x hx

/-- A chain is closed, or a list: one node is replaced, and none is added. -/
theorem replace (h : Assigned args nodes owner) (hold : nodes[id.index]? = some old)
    (hn : n.Belongs args nodes.size owner id.index) :
    Assigned args (Store.extended nodes #[] id n) owner := by
  apply h.extend hold
  · exact fun _ _ => rfl
  · exact hn
  · intro j x hx
    simp at hx

/-- A link for a function replaces the end of a chain. Behind it come a node for the function, and an end. -/
theorem link (h : Assigned args nodes owner) {depth : Nat} (hold : nodes[id.index]? = some (.vacant depth))
    {handler tail : Node} (hhandler : handler.Handles args c fits) (htail : tail.EndsLinks) :
    ∃ owner', Assigned args
      (Store.extended nodes #[handler, tail] id (.link c ⟨nodes.size⟩ ⟨nodes.size + 1⟩)) owner' := by
  have hid : id.index < nodes.size := (Array.getElem?_eq_some_iff.1 hold).1
  have hmade : owner id.index = none := h.belongs _ _ hold
  let owner' : Nat → Option CallableId := fun k =>
    if k = nodes.size then some c else if k = nodes.size + 1 then none else owner k
  have hsame : ∀ k < nodes.size, owner' k = owner k := fun k hk =>
    (if_neg (Nat.ne_of_lt hk)).trans (if_neg (Nat.ne_of_lt (Nat.lt_succ_of_lt hk)))
  have hhere : owner' nodes.size = some c := if_pos rfl
  have hnext : owner' (nodes.size + 1) = none := (if_neg (Nat.succ_ne_self _)).trans (if_pos rfl)
  refine ⟨owner', h.extend hold hsame ⟨(hsame _ hid).trans hmade, ⟨hid, ?_, hhere⟩, ?_, ?_, hnext⟩ ?_⟩
  · exact Nat.lt_add_of_pos_right Nat.two_pos
  · exact Nat.lt_succ_of_lt hid
  · exact Nat.add_lt_add_left Nat.one_lt_two _
  · intro j x hx
    rcases j with _ | _ | j
    · obtain rfl := Option.some.inj hx
      cases handler with
      | fixed d => exact ⟨hhandler.1 ▸ hhere, hhandler.2.1⟩
      | variadicVacant depth => exact ⟨hhere.symm ▸ Option.some_ne_none c, hhandler.2⟩
      | _ => exact hhandler.elim
    · obtain rfl := Option.some.inj hx
      exact htail.belongs hnext
    · simp at hx

/-- A shape for a function replaces the end of its list. Behind it comes an end for the same function. -/
theorem shape (h : Assigned args nodes owner) (hold : nodes[id.index]? = some old) {d : Dispatch}
    (hmade : owner id.index = some d.callable) (hforwards : Arguments.forwardsVariadic args = true) {last : Node}
    (hlast : last.EndsShapes) :
    ∃ owner', Assigned args (Store.extended nodes #[last] id (.variadicCase names d ⟨nodes.size⟩)) owner' := by
  have hid : id.index < nodes.size := (Array.getElem?_eq_some_iff.1 hold).1
  refine ⟨fun k => if k = nodes.size then some d.callable else owner k,
    h.extend hold (fun k hk => if_neg (Nat.ne_of_lt hk)) ⟨?_, hforwards, hid, ?_, if_pos rfl⟩ ?_⟩
  · exact (if_neg (Nat.ne_of_lt hid)).trans hmade
  · exact Nat.lt_succ_self _
  · intro j x hx
    rcases j with _ | j
    · obtain rfl := Option.some.inj hx
      exact hlast.belongs (by simp) hforwards
    · simp at hx

/-- **Every change of nodes keeps them assigned.** What is added is for the function that is called, but for the
    end of a chain. -/
theorem step (h : Assigned args nodes owner) (hstep : NodeStep args limits c fits nodes nodes') :
    ∃ owner', Assigned args nodes' owner' := by
  cases hstep with
  | close demand hfollow =>
      have hold := node_of_follow hfollow
      have hmade : owner _ = none := h.belongs _ _ hold
      exact ⟨owner, h.replace hold hmade⟩
  | closeShapes demand _ hfollow =>
      have hold := node_of_followShapes hfollow
      obtain ⟨hmade, hforwards⟩ := h.belongs _ _ hold
      exact ⟨owner, h.replace hold ⟨hmade, hforwards⟩⟩
  | link hfollow _ hhandler htail => exact h.link (node_of_follow hfollow) hhandler htail.ends
  | shape hstart hfollow _ hcallable hlast =>
      obtain ⟨hmade, hforwards⟩ := h.owner_of_vacant hstart hfollow
      subst hcallable
      exact h.shape (node_of_followShapes hfollow) hmade hforwards hlast.ends
  | redispatch hn hd hcallable => exact ⟨owner, h.redispatch hn hd hcallable⟩

theorem steps (h : Assigned args nodes owner)
    (hsteps : Relation.ReflTransGen (NodeStep args limits c fits) nodes nodes') :
    ∃ owner', Assigned args nodes' owner' := by
  induction hsteps with
  | refl => exact ⟨owner, h⟩
  | tail _ hstep ih =>
      obtain ⟨owner₁, h₁⟩ := ih
      exact h₁.step hstep

end Assigned

end Chain

/-! ## Faults -/

/-- An error that is no fault in the bookkeeping. -/
def EvalError.Ordinary (e : EvalError) : Prop := ∀ f, e ≠ .internal f

namespace Chain

variable {σ α : Type}

theorem ordinary_undefined (name : String) : (EvalError.undefinedVariable name).Ordinary := by
  intro f h
  cases h

/-- A match fails only where arguments are refused. -/
theorem ordinary_matchStandard {s : Store} {c : CallableId} {names : SuppliedNames} {allowReorder : Bool}
    {e : EvalError} (h : s.matchStandard c names allowReorder = .error e) : e.Ordinary := by
  rintro f rfl
  rw [Store.matchStandard] at h
  by_cases hempty : some Name.empty ∈ names
  · rw [Matching.run_empty hempty] at h
    cases h
  by_cases hrepeats : ∃ j n, Matching.Repeats (s.callable c).formals names j n
  · obtain ⟨j, n, hjn⟩ := hrepeats
    obtain ⟨j, n, hfirst⟩ := Matching.exists_firstRepeat hjn
    rw [Matching.run_repeated hempty hfirst] at h
    cases h
  · have hdistinct : ∀ j n, ¬ Matching.Repeats (s.callable c).formals names j n :=
      fun j n hjn => hrepeats ⟨j, n, hjn⟩
    rcases Matching.run_ok_or_refused s.spell (s.callable c).label allowReorder hempty hdistinct with
      ⟨matched, hok⟩ | ⟨j, hrefused⟩
    · cases hok.symm.trans h
    · have hrefusal := Except.error.inj (hrefused.symm.trans h)
      rw [Matching.refusal] at hrefusal
      split at hrefusal <;> cases hrefusal

theorem ordinary_runMatcher (matcher : Matcher) (c : CallableId) (names : SuppliedNames) (source : String)
    (allowReorder : Bool) : FailsWith EvalError.Ordinary (Store.runMatcher matcher c names source allowReorder) := by
  cases matcher with
  | standard =>
      intro s e h
      rw [Store.runMatcher_standard] at h
      exact ordinary_matchStandard h
  | recording =>
      intro s e h
      rw [Store.runMatcher_recording] at h
      exact ordinary_matchStandard h
  | fixed answer => exact .of_pure answer
  | refusing message => exact .of_error fun f h => by cases h

theorem ordinary_checkNames (args : Arguments) :
    FailsWith EvalError.Ordinary (EvalM.ofExcept (Arguments.checkNames args) : EvalM σ Unit) := by
  apply FailsWith.of_result
  rintro e h f rfl
  unfold Arguments.checkNames at h
  split at h <;> cases h

theorem ordinary_readGroups (args : Arguments) (s : Store) (caller : ActivationId) :
    FailsWith EvalError.Ordinary (EvalM.ofExcept (Arguments.readGroups args s caller) : EvalM σ (List GroupId)) := by
  apply FailsWith.of_result
  rintro e h f rfl
  unfold Arguments.readGroups at h
  split at h
  · split at h <;> cases h
  · cases h

theorem ordinary_calleeOf (getters : Getters σ) (i : SiteId) (caller : ActivationId) :
    FailsWith EvalError.Ordinary (calleeOf getters i caller) := by
  have hfunction : ∀ v, FailsWith EvalError.Ordinary (functionOf getters v) := by
    intro v
    unfold functionOf
    refine .bind (.force getters v) fun v => ?_
    cases v with
    | function c => exact .bind (.of_store _) fun _ => .of_pure c
    | _ => exact .of_error fun f h => by cases h
  unfold calleeOf
  refine .bind (.of_store get) fun s => ?_
  cases (s.site i).callee with
  | read cache => exact .bind (.readOrError getters caller ordinary_undefined cache) hfunction
  | value v => exact hfunction v

end Chain

/-! ## Preparation -/

namespace Chain

variable {σ α : Type} {nodes : Array Node} {owner : Nat → Option CallableId} {c : CallableId} {id start : NodeId}
  {getters : Getters σ} {i : SiteId} {caller : ActivationId} {m : Machine σ}

/-- A preparation that does not end in a fault. If it succeeds, control can be given to the function. -/
def ComesTo (c : CallableId) (act : EvalM σ Prepared) (m : Machine σ) : Prop :=
  (∀ f, (act.run.run m).1 ≠ .error (.internal f)) ∧ ∀ p, (act.run.run m).1 = .ok p → p.callable = c

theorem comesTo_bind {act : EvalM σ α} {f : α → EvalM σ Prepared} (hact : FailsWith EvalError.Ordinary act)
    (hf : ∀ a m₁, act.run.run m = (.ok a, m₁) → ComesTo c (f a) m₁) : ComesTo c (act >>= f) m := by
  have hm := hact m
  unfold ComesTo
  rw [EvalM.run_bind]
  generalize act.run.run m = result at hm hf ⊢
  rcases result with ⟨e | a, m₁⟩
  · refine ⟨fun f heq => ?_, fun p hp => by cases hp⟩
    cases heq
    exact hm _ rfl f rfl
  · exact hf a m₁ rfl

/-- A first step that is known to succeed. -/
theorem comesTo_bind_ok {act : EvalM σ α} {f : α → EvalM σ Prepared} {a : α} {m₁ : Machine σ}
    (hrun : act.run.run m = (.ok a, m₁)) (hf : ComesTo c (f a) m₁) : ComesTo c (act >>= f) m := by
  unfold ComesTo
  rw [EvalM.run_bind, hrun]
  exact hf

/-- The site is as it was after a first step that leaves it alone. -/
theorem comesTo_bind_leaves {act : EvalM σ α} {f : α → EvalM σ Prepared} (hact : FailsWith EvalError.Ordinary act)
    (hleaves : EvalM.LeavesSite i act) (hf : ∀ a (m₁ : Machine σ), m.store.Meanwhile i m₁.store →
      ComesTo c (f a) m₁) : ComesTo c (act >>= f) m := by
  refine comesTo_bind hact fun a m₁ hrun => hf a m₁ ?_
  have hm := hleaves m
  rwa [hrun] at hm

theorem comesTo_evaluate {d : Dispatch} (hcallable : d.callable = c) (id : NodeId) (args : Arguments)
    (entries : List (List GroupEntry)) (names : SuppliedNames) (m : Machine σ) :
    ComesTo c (do let values ← Arguments.evaluate getters caller args entries
                  EvalM.onCall (prepareDispatch i id d names values) : EvalM σ Prepared) m := by
  refine comesTo_bind (.evaluate getters caller ordinary_undefined args entries) fun values m₁ _ => ?_
  constructor
  · intro f h
    cases h
  · intro p hp
    obtain rfl := Except.ok.inj hp
    exact hcallable

theorem comesTo_fixed {d : Dispatch} (hcallable : d.callable = c) (id : NodeId) (m : Machine σ) :
    ComesTo c (prepareFixed getters i id d caller) m :=
  comesTo_bind (.of_store get) fun _ _ _ => comesTo_evaluate hcallable id _ _ _ _

theorem comesTo_generic (demand : CallerDemand) (m : Machine σ) :
    ComesTo c (prepareGeneric getters i demand caller c) m := by
  unfold prepareGeneric
  refine comesTo_bind (.of_store get) fun s _ _ => comesTo_bind (ordinary_checkNames _) fun _ _ _ => ?_
  refine comesTo_bind (ordinary_readGroups _ s caller) fun groups _ _ => comesTo_bind (.of_store _) fun _ _ _ => ?_
  refine comesTo_bind (.of_call (ordinary_runMatcher _ c _ _ true)) fun matched _ _ => ?_
  refine comesTo_bind (.evaluate getters caller ordinary_undefined _ _) fun values m₁ _ => ?_
  constructor
  · intro f h
    cases h
  · intro p hp
    obtain rfl := Except.ok.inj hp
    rfl

theorem comesTo_lastly (id : NodeId) (final : CallerDemand → Node) (m : Machine σ) :
    ComesTo c (prepareLastly getters i id final caller c) m :=
  comesTo_bind (.of_store _) fun demand _ _ => comesTo_bind (.of_store _) fun _ m₁ _ =>
    comesTo_generic demand m₁

theorem comesTo_shape (id : NodeId) (depth : Nat) (signature : SuppliedNames)
    (entries : List (List GroupEntry)) (m : Machine σ) :
    ComesTo c (prepareShape getters i id depth signature entries caller c) m := by
  unfold prepareShape
  refine comesTo_bind (.of_store get) fun s m₁ _ => ?_
  dsimp only
  split
  · exact comesTo_lastly id _ m₁
  · refine comesTo_bind (.of_call (ordinary_runMatcher _ c _ _ false)) fun matched _ _ => ?_
    refine comesTo_bind (.of_store _) fun next m₂ _ => comesTo_bind (.of_store _) fun d m₃ hd => ?_
    have hcallable : d.callable = c := by
      have hfresh := congrArg (fun result => result.1) hd
      obtain rfl := Except.ok.inj hfresh
      rfl
    exact comesTo_bind (.of_store _) fun _ m₄ _ => comesTo_evaluate hcallable id _ entries signature m₄

/-- **Where shapes are for a function, a call that forwards arguments comes to it.** -/
theorem comesTo_variadic {args : Arguments} (h : Assigned args (m.store.site i).nodes owner)
    (hstart : start.index < (m.store.site i).nodes.size) (howner : owner start.index = some c)
    (hforwards : Arguments.forwardsVariadic args = true) :
    ComesTo c (prepareVariadic getters i start caller c) m := by
  unfold prepareVariadic
  refine comesTo_bind_ok rfl ?_
  dsimp only
  refine comesTo_bind (ordinary_readGroups _ _ caller) fun groups _ _ => comesTo_bind (.of_store _) fun _ m₂ _ => ?_
  obtain ⟨id, n, hfollow, -, hshape⟩ := h.followShapes (Arguments.flattenedNames (m.store.site i).args
    (Arguments.entriesOf m.store groups)) ((m.store.site i).nodes.size + 1) start hstart (by omega) howner hforwards
  rw [hfollow]
  refine comesTo_bind_ok rfl ?_
  rcases hshape with ⟨d, next, rfl, hcallable⟩ | ⟨depth, rfl⟩ | ⟨demand, rfl⟩
  · exact comesTo_evaluate hcallable id _ _ _ m₂
  · exact comesTo_shape id depth _ _ m₂
  · exact comesTo_generic demand m₂

/-- The nodes that a chain gets when it grows. -/
theorem prepareLink_nodes (getters : Getters σ) (caller : ActivationId) (c : CallableId)
    (hi : m.store.Allocated (.site i)) (id : NodeId) (depth limit : Nat) (handler : Node) :
    ∃ (ds : Array Guard) (tail : Node), tail.ClosesLinks limit (depth + 1)
      ∧ (prepareLink getters i id depth limit caller c handler).run.run m
        = (prepareHandler getters i ⟨(m.store.site i).nodes.size⟩ caller c handler).run.run
          ⟨({ m.store with demands := ds }).setNodes i (Store.extended (m.store.site i).nodes
            #[handler, tail] id (.link c ⟨(m.store.site i).nodes.size⟩ ⟨(m.store.site i).nodes.size + 1⟩)),
            m.host⟩ := by
  obtain ⟨ds, tail, htail, hrun⟩ := addLink_run hi handler depth limit
  refine ⟨ds, tail, htail, ?_⟩
  unfold prepareLink
  rw [EvalM.run_onStore_bind, hrun]
  dsimp only
  rw [EvalM.run_onStore_bind]
  have hset := setNode_setNodes (s := { m.store with demands := ds }) hi #[handler, tail] id
    (.link c ⟨(m.store.site i).nodes.size⟩ ⟨(m.store.site i).nodes.size + 1⟩)
  exact congrArg _ (congrArg (Machine.mk · m.host) hset)

/-- A link is added for the function, and the call goes through it. -/
theorem comesTo_link (hi : m.store.Allocated (.site i)) {args : Arguments}
    (h : Assigned args (m.store.site i).nodes owner) {limits : CacheLimits} {depth : Nat}
    (hfollow : follow (m.store.site i).nodes c ((m.store.site i).nodes.size + 1) .root = .ok (id, .vacant depth))
    (hroom : depth < limits.functionDepth) {handler : Node} (hhandler : handler.Handles args c True) :
    ComesTo c (prepareLink getters i id depth limits.functionDepth caller c handler) m := by
  obtain ⟨ds, tail, htail, hrun⟩ := prepareLink_nodes getters caller c hi id depth limits.functionDepth handler
  have hstep : NodeStep args limits c True (m.store.site i).nodes _ := .link hfollow hroom hhandler htail
  obtain ⟨owner', h'⟩ := h.step hstep
  have hlink := h'.belongs _ _ (extended_self (node_of_follow hfollow))
  obtain ⟨-, hlt, howner⟩ := hlink.2.1
  unfold ComesTo
  rw [hrun, ← ComesTo]
  cases handler with
  | fixed d => exact comesTo_fixed hhandler.1 _ _
  | variadicVacant d =>
      -- What the call follows now are the nodes with the link.
      have hsite := Store.site_setNodes (s := { m.store with demands := ds }) hi
      refine comesTo_variadic (?_ : Assigned args _ owner') ?_ howner hhandler.2
      · rw [hsite]
        exact h'
      · rw [hsite]
        exact hlt
  | _ => exact hhandler.elim

/-- Where the chain ends, a link is added, or the call is matched anew. -/
theorem comesTo_new (hi : m.store.Allocated (.site i))
    (h : Assigned (m.store.site i).args (m.store.site i).nodes owner) {depth : Nat}
    (hfollow : follow (m.store.site i).nodes c ((m.store.site i).nodes.size + 1) .root = .ok (id, .vacant depth)) :
    ComesTo c (prepareNew getters i id depth caller c) m := by
  unfold prepareNew
  refine comesTo_bind_ok rfl ?_
  dsimp only
  refine comesTo_bind_leaves (i := i) (ordinary_checkNames _)
    (EvalM.Within.of_result (R := Store.Meanwhile i) (.refl i) _) fun _ m₁ hm₁ => ?_
  split
  · exact comesTo_lastly id _ m₁
  rename_i hroom
  have hroom := Nat.lt_of_not_le hroom
  -- The site is the same after a match.
  have hlink : ∀ (m₂ : Machine σ) handler, m.store.Meanwhile i m₂.store →
      handler.Handles (m.store.site i).args c True →
      ComesTo c (prepareLink getters i id depth (m.store.site i).limits.functionDepth caller c handler) m₂ := by
    intro m₂ handler hm₂ hhandler
    refine comesTo_link (Nat.lt_of_lt_of_le hi hm₂.sites) (?_ : Assigned (m.store.site i).args _ owner) ?_ hroom
      hhandler
    · rw [hm₂.site]
      exact h
    · rw [hm₂.site]
      exact hfollow
  split
  · rename_i hforwards
    exact comesTo_bind_ok rfl (hlink m₁ _ hm₁ ⟨rfl, hforwards⟩)
  · rename_i hforwards
    refine comesTo_bind_leaves (i := i) (.of_call (ordinary_runMatcher _ c _ _ false))
      (runMatcher_apart _ c _ _ false).keeps fun matched m₂ hm₂ => ?_
    have hfresh : (Node.fixed <$> EvalM.onStore (newDispatch c matched) : EvalM σ Node).run.run m₂
        = (.ok (.fixed (freshDispatch m₂.store c matched)),
          ⟨demanding m₂.store (m₂.store.callable c).wantsCaller, m₂.host⟩) := rfl
    refine comesTo_bind_ok hfresh (hlink _ _ ((hm₁.trans hm₂).trans ?_) ⟨rfl, by simpa using hforwards, trivial⟩)
    exact .of_eq rfl rfl rfl

/-- **A call comes to the function that was called**, or fails before, but never by a fault. -/
theorem comesTo_prepare (hi : m.store.Allocated (.site i))
    (h : Assigned (m.store.site i).args (m.store.site i).nodes owner) :
    ComesTo c (prepare getters i caller c) m := by
  obtain ⟨id, n, hfollow, hend, howner⟩ := h.follow c ((m.store.site i).nodes.size + 1) .root h.root.1
    (Nat.lt_succ_self _) (Or.inl h.root.2)
  have hn := node_of_follow hfollow
  have hbelongs := h.belongs _ _ hn
  -- What is for some function is for this one.
  have hsome : owner id.index ≠ none → owner id.index = some c := fun hne => howner.resolve_left hne
  have hlt : id.index < (m.store.site i).nodes.size := (Array.getElem?_eq_some_iff.1 hn).1
  unfold prepare
  refine comesTo_bind_ok rfl ?_
  dsimp only
  rw [hfollow]
  refine comesTo_bind_ok rfl ?_
  cases n with
  | vacant depth => exact comesTo_new hi h hfollow
  | fixed d =>
      have hcallable := hbelongs.1.symm.trans (hsome (hbelongs.1 ▸ Option.some_ne_none _))
      exact comesTo_fixed (Option.some.inj hcallable) id m
  | generic demand => exact comesTo_generic demand m
  | variadicGeneric demand => exact comesTo_generic demand m
  | variadicVacant depth => exact comesTo_variadic h hlt (hsome hbelongs.1) hbelongs.2
  | variadicCase names d next =>
      exact comesTo_variadic h hlt (hsome (hbelongs.1 ▸ Option.some_ne_none _)) hbelongs.2.1
  | link callee handler next => cases hend

/-- A call of whatever function the site's own callee evaluates to. -/
theorem comesTo_prepareSite (hi : m.store.Allocated (.site i))
    (h : Assigned (m.store.site i).args (m.store.site i).nodes owner)
    (hcallee : ((calleeOf getters i caller).run.run m).1 = .ok c) :
    ComesTo c (prepareSite getters i caller) m := by
  have hm := calleeOf_within (EvalM.steady_meanwhile getters i) i caller m
  unfold prepareSite
  generalize hrun : (calleeOf getters i caller).run.run m = result at hcallee hm
  obtain ⟨r, m₁⟩ := result
  obtain rfl : r = .ok c := hcallee
  rw [← hm.site] at h
  exact comesTo_bind_ok hrun (comesTo_prepare (Nat.lt_of_lt_of_le hi hm.sites) h)

end Chain

end ScopeCall
