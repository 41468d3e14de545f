import ScopeCall.Proofs.Accounting

/-!
# `ScopeCall.Proofs.Upgrading` — callers are handed over from the first request on

Each node that calls run through has a demand of its own, which says whether the callees of its calls get their
caller itself or an elided handle on it. A demand is made with its node, needed from the start if the function of
the node wants its caller; from then on it becomes needed where a callee asks for its caller by a handle with this
demand, and in no other way. Calls, functions that are made and scopes that are worked on leave demands alone. So
what kind of handle a callee gets is settled by the requests of earlier callees through the same node.

## Contents
- **Nodes and their demands.** `Store.Bears`, and `Store.KeepsDemands`: what leaves demands alone.
- **Guards.** `Store.Guarded`: which demands are needed, and what keeps it so.
- **Calls.** `Account.Upgraded`, step by step.
- **Handles.** `handles_upgraded`.
-/

namespace ScopeCall

/-- The function that a node is for; an end is for any. -/
def Node.callee? (n : Node) : Option CallableId := (Chain.dispatchOf? n).map (·.callable)

namespace Store

variable {s s₁ s₂ : Store} {i j : SiteId} {id id' : NodeId} {demand : CallerDemand} {callee : Option CallableId}
  {asked : List (SiteId × NodeId)} {c : CallableId}

/-! ## Nodes and their demands -/

/-- Calls run through a node with this demand, which is for such a function. -/
def Bears (s : Store) (i : SiteId) (id : NodeId) (demand : CallerDemand) (callee : Option CallableId) : Prop :=
  ∃ n, s.Runs i id n demand ∧ n.callee? = callee

/-- Whether the function that a node is for wants its caller. -/
def wantsCaller (s : Store) (callee : Option CallableId) : Bool :=
  callee.any fun c => (s.callable c).wantsCaller

/-- Nodes keep their demands, and demands are as they were. -/
structure KeepsDemands (s s' : Store) : Prop where
  bears : ∀ i id demand callee, s'.Bears i id demand callee ↔ s.Bears i id demand callee
  demands : s'.demands = s.demands
  callables : s.callables.size ≤ s'.callables.size
  wantsCaller : ∀ c, s.Allocated (.callable c) → (s'.callable c).wantsCaller = (s.callable c).wantsCaller

theorem KeepsDemands.trans (h : s.KeepsDemands s₁) (h' : s₁.KeepsDemands s₂) : s.KeepsDemands s₂ where
  bears i id demand callee := (h'.bears i id demand callee).trans (h.bears i id demand callee)
  demands := h'.demands.trans h.demands
  callables := h.callables.trans h'.callables
  wantsCaller c hc := (h'.wantsCaller c (Nat.lt_of_lt_of_le hc h.callables)).trans (h.wantsCaller c hc)

theorem Aloof.keepsDemands (h : s.Aloof s₁) : s.KeepsDemands s₁ where
  bears i id demand callee := exists_congr fun n => and_congr_left' (h.runs i id n demand)
  demands := h.demands
  callables := by
    rw [h.callables]
  wantsCaller c _ := by
    rw [callable_congr h.callables]

theorem KeepsCalls.keepsDemands (h : s.KeepsCalls s₁) : s.KeepsDemands s₁ := h.calm.toAloof.keepsDemands

theorem bears_of_sites (h : s₁.sites = s.sites) : s₁.Bears i id demand callee ↔ s.Bears i id demand callee :=
  exists_congr fun _ => and_congr_left' (Runs.of_sites h)

/-- A function that is made leaves those that there are alone. -/
theorem keepsDemands_push (hsites : s₁.sites = s.sites) (hdemands : s₁.demands = s.demands) {callable : Callable}
    (hcallables : s₁.callables = s.callables.push callable) : s.KeepsDemands s₁ where
  bears _ _ _ _ := bears_of_sites hsites
  demands := hdemands
  callables := by
    rw [hcallables, Array.size_push]
    exact Nat.le_succ _
  wantsCaller c hc := by
    unfold Store.callable
    rw [hcallables, Array.getElem?_push_lt hc, Array.getElem?_eq_getElem hc]

theorem keepsDemands_newIntrinsic (s : Store) (spec : CallableSpec) (body : BodyId) :
    s.KeepsDemands ((newIntrinsic spec body).run s).2 := by
  have hcallables : ((newIntrinsic spec body).run s).2.callables = s.callables.push (spec.build (.intrinsic body)) :=
    rfl
  exact keepsDemands_push rfl rfl hcallables

theorem keepsDemands_newClosure (s : Store) (spec : CallableSpec) (enclosing : ActivationId) (body : BodyId) :
    s.KeepsDemands ((newClosure spec enclosing body).run.run s).2 := by
  have hkeeps := (keepsCalls_enclosed s spec enclosing).keepsDemands
  rw [newClosure_run]
  generalize s.enclosed spec enclosing = s₁ at hkeeps ⊢
  generalize spec.build (.closure ⟨s.layouts.size⟩ enclosing ⟨s₁.targets.size⟩) = c
  have hcallables : (s₁.addFunction { body, dedicated := false } c).callables = s₁.callables.push c := rfl
  exact hkeeps.trans (keepsDemands_push rfl rfl hcallables)

/-- So does counting a call. -/
theorem keepsDemands_modifyTarget (s : Store) (t : TargetId) (f : CallTarget → CallTarget) :
    s.KeepsDemands (s.modifyTarget t f) :=
  ⟨fun _ _ _ _ => bears_of_sites rfl, rfl, le_rfl, fun _ _ => rfl⟩

theorem keepsDemands_dispatchTarget {n : Node} {d : Dispatch} (hn : s.Runs i id n demand)
    (hd : Chain.dispatchOf? n = some d) : s.KeepsDemands ((Chain.dispatchTarget i id d).run s).2 := by
  -- A dispatch that has its copy is still for the same function.
  have hcallee : (Chain.withDispatch (Chain.taken s d) n).callee? = n.callee? := by
    have hsame : (Chain.taken s d).callable = d.callable := by
      unfold Chain.taken
      split <;> rfl
    unfold Node.callee?
    rw [Chain.dispatchOf?_withDispatch hd, hd, Option.map_some, Option.map_some, hsame]
  constructor
  case bears =>
    intro j id' demand' callee
    constructor
    · rintro ⟨n', hn', rfl⟩
      rw [Chain.runs_dispatchTarget hn hd] at hn'
      split at hn'
      · rename_i hhere
        obtain ⟨rfl, rfl⟩ := hhere
        obtain ⟨rfl, rfl⟩ := hn'
        exact ⟨n, hn, hcallee.symm⟩
      · exact ⟨n', hn', rfl⟩
    · rintro ⟨n', hn', rfl⟩
      by_cases hhere : j = i ∧ id' = id
      · obtain ⟨rfl, rfl⟩ := hhere
        obtain ⟨rfl, rfl⟩ := hn.unique hn'
        exact ⟨_, (Chain.runs_dispatchTarget hn hd).2 ((if_pos ⟨rfl, rfl⟩).mpr ⟨rfl, rfl⟩), hcallee⟩
      · exact ⟨n', (Chain.runs_dispatchTarget hn hd).2 ((if_neg hhere).mpr hn'), rfl⟩
  all_goals rcases Chain.dispatchTarget_cases s i id d with ⟨-, hrun⟩ | ⟨-, s₁, -, hdemands, -, hcallable, hsize, hrun⟩
  case demands.inl => rw [hrun]
  case demands.inr =>
    rw [hrun]
    exact hdemands
  case callables.inl => rw [hrun]
  case callables.inr =>
    rw [hrun]
    exact hsize.ge
  case wantsCaller.inl =>
    intro c _
    rw [hrun]
  case wantsCaller.inr =>
    intro c _
    have hsame := congrArg Callable.wantsCaller (hcallable c)
    rw [hrun]
    exact hsame

/-- Taking a node leaves demands alone. -/
theorem keepsDemands_takes {p : Chain.Prepared} (h : Chain.Takes i id p s s₁) : s.KeepsDemands s₁ := by
  cases h with
  | anew => exact (KeepsCalls.refl s).keepsDemands
  | cached h hn _ hrun =>
      have hkeeps := keepsDemands_dispatchTarget h hn
      rwa [hrun] at hkeeps

theorem bears_of_takes {p : Chain.Prepared} (h : Chain.Takes i id p s s₁) :
    ∃ callee, s₁.Bears i id p.demand callee ∧ (callee = none ∨ callee = some p.callable) := by
  have hbears := (keepsDemands_takes h).bears i id p.demand
  cases h with
  | anew h hn =>
      refine ⟨none, (hbears none).2 ⟨_, h, ?_⟩, Or.inl rfl⟩
      unfold Node.callee?
      rw [hn]
      rfl
  | cached h hn hc =>
      refine ⟨some p.callable, (hbears _).2 ⟨_, h, ?_⟩, Or.inr rfl⟩
      unfold Node.callee?
      rw [hn, ← hc]
      rfl

/-! ## Guards -/

/-- Each node has a demand of its own. It is needed if the function of the node wants its caller, or some callee has
    asked for its caller through the node, and only then. -/
structure Guarded (asked : List (SiteId × NodeId)) (s : Store) : Prop where
  made : ∀ i id demand callee, s.Bears i id demand callee → demand.index < s.demands.size
  own : ∀ i id j id' demand callee callee', s.Bears i id demand callee → s.Bears j id' demand callee' →
    j = i ∧ id' = id
  needed : ∀ i id demand callee, s.Bears i id demand callee →
    (s.demandNeeded demand = true ↔ s.wantsCaller callee = true ∨ (i, id) ∈ asked)
  callable : ∀ i id demand c, s.Bears i id demand (some c) → s.Allocated (.callable c)
  asked : ∀ q ∈ asked, ∃ demand callee, s.Bears q.1 q.2 demand callee

theorem bears_demandCaller (s : Store) (demand : CallerDemand) (j : SiteId) (id' : NodeId) (demand' : CallerDemand)
    (callee' : Option CallableId) :
    (s.demandCaller demand).Bears j id' demand' callee' ↔ s.Bears j id' demand' callee' := bears_of_sites rfl

theorem demandNeeded_demandCaller (hmade : demand.index < s.demands.size) (demand' : CallerDemand) :
    (s.demandCaller demand).demandNeeded demand' = if demand' = demand then true else s.demandNeeded demand' := by
  have hget : (s.demandCaller demand).demand demand' = if demand'.index = demand.index ∧ demand.index < s.demands.size
      then (s.demand demand).fallen else s.demand demand' :=
    Array.getD_modify s.demands demand.index demand'.index _
  unfold demandNeeded
  rw [hget]
  by_cases hsame : demand' = demand
  · rw [if_pos ⟨congrArg CallerDemand.index hsame, hmade⟩, if_pos hsame]
    rfl
  · rw [if_neg fun h => hsame (congrArg CallerDemand.mk h.1), if_neg hsame]

/-- What bears a demand has been installed just now, or did so before. -/
theorem Installs.bears_cases {needed : Bool} {n : Node} {j : SiteId} {id' : NodeId}
    (hs : Installs c needed i id n s s₁) (hb : s₁.Bears j id' demand callee) : s.Bears j id' demand callee
      ∨ (j = i ∧ id' = id ∧ demand = ⟨s.demands.size⟩ ∧ n.callee? = callee) := by
  obtain ⟨n', hn', hcallee⟩ := hb
  rcases (hs.runs j id' n' demand).1 hn' with hold | ⟨rfl, rfl, rfl, rfl⟩
  · exact Or.inl ⟨n', hold, hcallee⟩
  · exact Or.inr ⟨rfl, rfl, rfl, hcallee⟩

theorem Installs.demandNeeded {needed : Bool} {n : Node} (hs : Installs c needed i id n s s₁)
    (demand : CallerDemand) : s₁.demandNeeded demand
      = if demand.index = s.demands.size then needed else s.demandNeeded demand := by
  have hget : s₁.demand demand = if demand.index = s.demands.size
      then ⟨"caller activation not needed", !needed⟩ else s.demand demand := by
    unfold Store.demand
    rw [hs.demands]
    exact Array.getD_push s.demands _ demand.index
  unfold Store.demandNeeded
  rw [hget]
  split
  · exact Bool.not_not needed
  · rfl

namespace Guarded

theorem new (names : List String) : (Store.new names).Guarded [] := by
  have hnone : ∀ i id demand callee, ¬ (Store.new names).Bears i id demand callee := by
    rintro i id demand callee ⟨n, hn, -⟩
    exact Nat.not_lt_zero _ hn.allocated
  constructor
  case made => exact fun i id demand callee h => absurd h (hnone i id demand callee)
  case own => exact fun i id _ _ demand callee _ h => absurd h (hnone i id demand callee)
  case needed => exact fun i id demand callee h => absurd h (hnone i id demand callee)
  case callable => exact fun i id demand c h => absurd h (hnone i id demand (some c))
  case asked => exact fun q hq => absurd hq List.not_mem_nil

/-- Where demands are left alone, they stay as they are. -/
theorem carry (h : s.Guarded asked) (hs : s.KeepsDemands s₁) : s₁.Guarded asked where
  made i id demand callee hb := by
    rw [hs.demands]
    exact h.made i id demand callee ((hs.bears i id demand callee).1 hb)
  own i id j id' demand callee callee' hb hb' :=
    h.own i id j id' demand callee callee' ((hs.bears i id demand callee).1 hb)
      ((hs.bears j id' demand callee').1 hb')
  needed i id demand callee hb := by
    have hb := (hs.bears i id demand callee).1 hb
    have hwants : s₁.wantsCaller callee = s.wantsCaller callee := by
      cases callee with
      | none => rfl
      | some c => exact hs.wantsCaller c (h.callable i id demand c hb)
    have hdemand : s₁.demandNeeded demand = s.demandNeeded demand := by
      unfold demandNeeded Store.demand
      rw [hs.demands]
    rw [hwants, hdemand]
    exact h.needed i id demand callee hb
  callable i id demand c hb :=
    Nat.lt_of_lt_of_le (h.callable i id demand c ((hs.bears i id demand (some c)).1 hb)) hs.callables
  asked q hq := by
    obtain ⟨demand, callee, hb⟩ := h.asked q hq
    exact ⟨demand, callee, (hs.bears q.1 q.2 demand callee).2 hb⟩

/-- A fresh node hands over the caller if its function wants it. -/
theorem callee_of_fresh {needed : Bool} {n : Node} (h : s.Fresh c needed n) :
    needed = s.wantsCaller n.callee? ∧ ∀ c', n.callee? = some c' → c' = c := by
  unfold Fresh at h
  unfold Node.callee? wantsCaller
  cases hd : Chain.dispatchOf? n with
  | none =>
      rw [hd] at h
      exact ⟨h, fun c' hc' => by cases hc'⟩
  | some d =>
      rw [hd] at h
      obtain ⟨rfl, hneeded, -⟩ := h
      exact ⟨hneeded, fun c' hc' => (Option.some.inj hc').symm⟩

/-- A node is installed with a demand that no other has, needed just if its function wants its caller. -/
theorem install {needed : Bool} {n : Node} (h : s.Guarded asked) (hs : Installs c needed i id n s s₁)
    (hc : s.Allocated (.callable c)) : s₁.Guarded asked := by
  have hsize : s₁.demands.size = s.demands.size + 1 := by
    rw [hs.demands]
    exact Array.size_push _
  have hwants : s₁.wantsCaller = s.wantsCaller := by
    funext callee
    unfold wantsCaller
    rw [callable_congr hs.callables]
  obtain ⟨hfresh, hfor⟩ := callee_of_fresh hs.fresh
  constructor
  case made =>
    intro j id' demand callee hb
    rw [hsize]
    rcases hs.bears_cases hb with hold | ⟨-, -, rfl, -⟩
    · exact Nat.lt_succ_of_lt (h.made j id' demand callee hold)
    · exact Nat.lt_succ_self _
  case own =>
    intro j id' j' id'' demand callee callee' hb hb'
    rcases hs.bears_cases hb with hold | ⟨rfl, rfl, rfl, -⟩ <;>
      rcases hs.bears_cases hb' with hold' | ⟨rfl, rfl, hnew, -⟩
    · exact h.own j id' j' id'' demand callee callee' hold hold'
    · exact absurd (h.made j id' demand callee hold) (hnew ▸ Nat.lt_irrefl _)
    · exact absurd (h.made j' id'' _ callee' hold') (Nat.lt_irrefl _)
    · exact ⟨rfl, rfl⟩
  case needed =>
    intro j id' demand callee hb
    rw [hs.demandNeeded, hwants]
    rcases hs.bears_cases hb with hold | ⟨rfl, rfl, rfl, rfl⟩
    · rw [if_neg (Nat.ne_of_lt (h.made j id' demand callee hold))]
      exact h.needed j id' demand callee hold
    · rw [if_pos rfl, hfresh]
      refine ⟨Or.inl, fun hor => hor.resolve_right fun hin => ?_⟩
      obtain ⟨demand, callee, n', hn', -⟩ := h.asked _ hin
      exact hs.vacant n' demand hn'
  case callable =>
    intro j id' demand c' hb
    unfold Allocated
    rw [hs.callables]
    rcases hs.bears_cases hb with hold | ⟨-, -, -, hcallee⟩
    · exact h.callable j id' demand c' hold
    · rw [hfor c' hcallee]
      exact hc
  case asked =>
    intro q hq
    obtain ⟨demand, callee, n', hn', hcallee⟩ := h.asked q hq
    exact ⟨demand, callee, n', (hs.runs q.1 q.2 n' demand).2 (Or.inl hn'), hcallee⟩

/-- What goes before a node is taken leaves demands in order. -/
theorem furthers (h : s.Guarded asked) (hs : s.Furthers c s₁) (hc : s.Allocated (.callable c)) :
    s₁.Guarded asked := by
  induction hs with
  | refl => exact h
  | tail hbefore hstep ih =>
      cases hstep with
      | calm hcalm => exact ih.carry hcalm.toAloof.keepsDemands
      | install hinstalls =>
          refine ih.install hinstalls ?_
          unfold Allocated at hc ⊢
          rwa [Furthers.callables hbefore]

/-- A callee asks for its caller through a node: its demand is needed from now on, and no other. -/
theorem ask (h : s.Guarded asked) (hb : s.Bears i id demand callee) :
    (s.demandCaller demand).Guarded ((i, id) :: asked) := by
  have hsame := bears_demandCaller s demand
  constructor
  case made =>
    intro j id' demand' callee' hb'
    have hsize : (s.demandCaller demand).demands.size = s.demands.size := Array.size_modify
    rw [hsize]
    exact h.made j id' demand' callee' ((hsame j id' demand' callee').1 hb')
  case own =>
    intro j id' j' id'' demand' callee' callee'' hb' hb''
    exact h.own j id' j' id'' demand' callee' callee'' ((hsame j id' demand' callee').1 hb')
      ((hsame j' id'' demand' callee'').1 hb'')
  case needed =>
    intro j id' demand' callee' hb'
    replace hb' := (hsame j id' demand' callee').1 hb'
    have hwants : (s.demandCaller demand).wantsCaller callee' = s.wantsCaller callee' := rfl
    rw [demandNeeded_demandCaller (h.made i id demand callee hb), hwants, List.mem_cons]
    split
    · rename_i heq
      subst heq
      obtain ⟨rfl, rfl⟩ := h.own i id j id' demand' callee callee' hb hb'
      exact ⟨fun _ => Or.inr (Or.inl rfl), fun _ => rfl⟩
    · rename_i hother
      rw [h.needed j id' demand' callee' hb']
      refine or_congr_right ⟨Or.inr, fun hor => hor.resolve_left fun heq => ?_⟩
      -- A node has one demand.
      obtain ⟨rfl, rfl⟩ := Prod.mk.inj heq
      obtain ⟨n, hn, -⟩ := hb
      obtain ⟨n', hn', -⟩ := hb'
      exact hother (hn.unique hn').2
  case callable =>
    intro j id' demand' c hb'
    exact h.callable j id' demand' c ((hsame j id' demand' (some c)).1 hb')
  case asked =>
    intro q hq
    rcases List.mem_cons.1 hq with rfl | hq
    · exact ⟨demand, callee, (hsame i id demand callee).2 hb⟩
    · obtain ⟨demand', callee', hb'⟩ := h.asked q hq
      exact ⟨demand', callee', (hsame q.1 q.2 demand' callee').2 hb'⟩

end Guarded

/-! ## Calls -/

/-- No node loses its demand, and functions want their callers or not as before. -/
structure Endures (s s' : Store) : Prop where
  bears : ∀ i id demand callee, s.Bears i id demand callee → s'.Bears i id demand callee
  callables : s.callables.size ≤ s'.callables.size
  wantsCaller : ∀ c, s.Allocated (.callable c) → (s'.callable c).wantsCaller = (s.callable c).wantsCaller

theorem Endures.refl (s : Store) : s.Endures s := ⟨fun _ _ _ _ h => h, le_rfl, fun _ _ => rfl⟩

theorem Endures.trans (h : s.Endures s₁) (h' : s₁.Endures s₂) : s.Endures s₂ where
  bears i id demand callee hb := h'.bears i id demand callee (h.bears i id demand callee hb)
  callables := h.callables.trans h'.callables
  wantsCaller c hc := (h'.wantsCaller c (Nat.lt_of_lt_of_le hc h.callables)).trans (h.wantsCaller c hc)

/-- Besides, demands stay in order where no callee asks for its caller. -/
structure Sustains (s s' : Store) : Prop extends s.Endures s' where
  guarded : ∀ asked, s.Guarded asked → s'.Guarded asked

theorem Sustains.trans (h : s.Sustains s₁) (h' : s₁.Sustains s₂) : s.Sustains s₂ where
  toEndures := h.toEndures.trans h'.toEndures
  guarded asked hs := h'.guarded asked (h.guarded asked hs)

theorem KeepsDemands.sustains (h : s.KeepsDemands s₁) : s.Sustains s₁ where
  bears i id demand callee := (h.bears i id demand callee).2
  callables := h.callables
  wantsCaller := h.wantsCaller
  guarded _ hs := hs.carry h

theorem Furthers.sustains (h : s.Furthers c s₁) (hc : s.Allocated (.callable c)) : s.Sustains s₁ where
  bears _ _ _ _ := fun ⟨n, hn, hcallee⟩ => ⟨n, h.runs hn, hcallee⟩
  callables := (congrArg Array.size h.callables).ge
  wantsCaller c' _ := by
    rw [callable_congr h.callables]
  guarded _ hs := hs.furthers h hc

theorem Guarded.handle (h : s.Guarded asked) (hb : s.Bears i id demand callee)
    (hcallee : callee = none ∨ callee = some c) (caller : ActivationId) {handle : CallerHandle}
    (hhandle : handle = if (s.callable c).wantsCaller then .materialized caller else s.handleFor demand caller) :
    handle.origin = caller ∧ (handle.isMaterialized = true ↔ (s.callable c).wantsCaller = true ∨ (i, id) ∈ asked)
      ∧ ∀ x d, handle = .elided x d → d = demand := by
  cases hwants : (s.callable c).wantsCaller with
  | true =>
      rw [hwants, if_pos rfl] at hhandle
      subst hhandle
      exact ⟨rfl, ⟨fun _ => Or.inl rfl, fun _ => rfl⟩, fun x d heq => by cases heq⟩
  | false =>
      -- The function does not want its caller, so only a request can have made the demand needed.
      have hnone : s.wantsCaller callee ≠ true := by
        rcases hcallee with rfl | rfl
        · exact Bool.false_ne_true
        · exact Bool.eq_false_iff.1 hwants
      have hneeded := h.needed i id demand callee hb
      rw [hwants, if_neg Bool.false_ne_true] at hhandle
      subst hhandle
      unfold handleFor
      split
      · rename_i hyes
        exact ⟨rfl, ⟨fun _ => Or.inr ((hneeded.1 hyes).resolve_left hnone), fun _ => rfl⟩, fun x d heq => by cases heq⟩
      · rename_i hno
        refine ⟨rfl, ⟨fun heq => (by cases heq), fun hor => ?_⟩, fun x d heq => ?_⟩
        · exact absurd (hneeded.2 (Or.inr (hor.resolve_left Bool.false_ne_true))) hno
        · cases heq
          rfl

end Store

namespace Account

open Store

variable {a a' : Account} {i : SiteId} {caller : ActivationId}

/-- The callee of a call gets a handle on the scope that it was called from: the scope itself just if it wants that,
    or a callee has asked for its caller through the same node before. -/
structure Hands (a : Account) (i : SiteId) (caller : ActivationId) (s' : Store) (sv : Service) : Prop where
  site : sv.site = i
  called : sv.caller = caller
  origin : sv.invocation.caller.origin = caller
  upgraded : sv.invocation.caller.isMaterialized = true ↔
    (a.store.callable sv.invocation.callable).wantsCaller = true ∨ (i, sv.node) ∈ a.asked
  node : ∃ demand callee, s'.Bears i sv.node demand callee
    ∧ (callee = none ∨ callee = some sv.invocation.callable)
    ∧ ∀ x d, sv.invocation.caller = .elided x d → d = demand

theorem Called.asked (h : Called i caller a a') : a'.asked = a.asked := by
  cases h <;> rfl

theorem Called.sustains (h : Called i caller a a') : a.store.Sustains a'.store := by
  cases h with
  | failed hc h => exact h.sustains hc
  | idle h => exact h.keepsDemands.sustains
  | ran hc h ht hs =>
      exact ((h.sustains hc).trans (keepsDemands_takes ht).sustains).trans hs.keepsDemands.sustains
  | entered hc h ht hs =>
      exact (((h.sustains hc).trans (keepsDemands_takes ht).sustains).trans hs.keepsDemands.sustains).trans
        (keepsDemands_modifyTarget _ _ _).sustains

theorem Called.held (h : Called i caller a a') {r : Ref} (hr : r ∈ a.store.roots) : r ∈ a'.store.roots := by
  cases h with
  | failed _ h => exact h.held hr
  | idle h => exact h.held r hr
  | ran _ h ht hs | entered _ h ht hs => exact hs.held r (ht.rest.2.2 ▸ h.held hr)

/-- What is handed over in a call has been settled by the requests before. -/
theorem Called.hands (h : Called i caller a a') (ha : a.store.Guarded a.asked) :
    (a'.running = a.running ∧ a'.served = a.served) ∨ ∃ sv, a'.running = sv :: a.running ∧ a'.served = sv :: a.served
      ∧ a.Hands i caller a'.store sv := by
  cases h with
  | failed | idle | ran => exact Or.inl ⟨rfl, rfl⟩
  | entered hc h ht hs hkind hcallable hcaller =>
      rename_i c s₁ s₂ s p id l e shared inv
      obtain ⟨callee, hb, hcallee⟩ : ∃ callee, s₂.Bears i id p.demand callee
          ∧ (callee = none ∨ callee = some p.callable) := bears_of_takes ht
      have hguarded := (keepsDemands_takes ht).sustains.guarded _ ((h.sustains hc).guarded _ ha)
      obtain ⟨horigin, hupgraded, helided⟩ := hguarded.handle hb hcallee caller hcaller
      have hwants : (s₂.callable p.callable).wantsCaller = (a.store.callable inv.callable).wantsCaller := by
        rw [hcallable, ht.rest.1, Store.callable_congr h.callables]
      refine Or.inr ⟨_, rfl, rfl, rfl, rfl, horigin, ?_, p.demand, callee, ?_, ?_, helided⟩
      · rwa [hwants] at hupgraded
      · exact ((hs.keepsDemands.trans (keepsDemands_modifyTarget _ _ _)).bears _ _ _ _).2 hb
      · rwa [hcallable]

/-! ## Runs -/

/-- Demands are in order. Callees have handles on the scopes that they were called from, and elided ones lead to the
    demands of their nodes. The callers of calls in progress are held. -/
structure Upgraded (a : Account) : Prop where
  guards : a.store.Guarded a.asked
  origin : ∀ sv ∈ a.served, sv.invocation.caller.origin = sv.caller
  elided : ∀ sv ∈ a.served, ∀ x d, sv.invocation.caller = .elided x d →
    ∃ callee, a.store.Bears sv.site sv.node d callee
  held : ∀ sv ∈ a.running, sv ∈ a.served ∧ .activation sv.caller ∈ a.store.roots

theorem upgraded_new (names : List String) : (Account.new names).Upgraded :=
  ⟨.new names, fun _ h => absurd h List.not_mem_nil, fun _ h => absurd h List.not_mem_nil,
    fun _ h => absurd h List.not_mem_nil⟩

/-- Where nothing is called or asked for, all of it stays so. -/
theorem Upgraded.sustain (ha : a.Upgraded) {s : Store} (hs : a.store.Sustains s)
    (hheld : ∀ sv ∈ a.running, .activation sv.caller ∈ s.roots) : Upgraded { a with store := s } where
  guards := hs.guarded _ ha.guards
  origin := ha.origin
  elided sv hsv x d heq := by
    obtain ⟨callee, hb⟩ := ha.elided sv hsv x d heq
    exact ⟨callee, hs.bears _ _ _ _ hb⟩
  held sv hsv := ⟨(ha.held sv hsv).1, hheld sv hsv⟩

theorem Upgraded.call (ha : a.Upgraded) (h : Called i caller a a') (hheld : .activation caller ∈ a.store.roots) :
    a'.Upgraded := by
  have hkept := ha.sustain h.sustains fun sv hsv => h.held (ha.held sv hsv).2
  rcases h.hands ha.guards with ⟨hrunning, hserved⟩ | ⟨sv, hrunning, hserved, hhands⟩
  · constructor
    case guards => exact h.asked ▸ hkept.guards
    case origin => exact hserved ▸ hkept.origin
    case elided => exact hserved ▸ hkept.elided
    case held => exact hrunning ▸ hserved ▸ hkept.held
  · constructor
    case guards => exact h.asked ▸ hkept.guards
    case origin =>
      rw [hserved]
      refine List.forall_mem_cons.2 ⟨hhands.origin.trans hhands.called.symm, hkept.origin⟩
    case elided =>
      rw [hserved]
      refine List.forall_mem_cons.2 ⟨fun x d heq => ?_, hkept.elided⟩
      obtain ⟨demand, callee, hb, -, helided⟩ := hhands.node
      obtain rfl := helided x d heq
      rw [hhands.site]
      exact ⟨callee, hb⟩
    case held =>
      rw [hrunning, hserved]
      refine List.forall_mem_cons.2 ⟨⟨List.mem_cons_self, ?_⟩, fun sv' hsv => ?_⟩
      · rw [hhands.called]
        exact h.held hheld
      · exact ⟨List.mem_cons_of_mem _ (hkept.held sv' hsv).1, (hkept.held sv' hsv).2⟩

/-- A request leaves everything alone but the demand of the node. -/
theorem endures_ask (a : Account) (sv : Service) : a.store.Endures (a.ask sv).store
    ∧ (a.ask sv).store.roots = a.store.roots := by
  unfold ask
  cases sv.invocation.caller with
  | materialized x => exact ⟨.refl _, rfl⟩
  | elided x d => exact ⟨⟨fun j id demand callee => (bears_demandCaller a.store d j id demand callee).2, le_rfl,
      fun _ _ => rfl⟩, rfl⟩

theorem Upgraded.ask (ha : a.Upgraded) {sv : Service} (hsv : sv ∈ a.served) : (a.ask sv).Upgraded := by
  obtain ⟨hendures, hroots⟩ := endures_ask a sv
  constructor
  case guards =>
    unfold Account.ask
    cases hcaller : sv.invocation.caller with
    | materialized x => exact ha.guards
    | elided x d =>
        obtain ⟨callee, hb⟩ := ha.elided sv hsv x d hcaller
        exact ha.guards.ask hb
  case origin => exact ha.origin
  case elided =>
    intro sv' hsv' x d heq
    obtain ⟨callee, hb⟩ := ha.elided sv' hsv' x d heq
    exact ⟨callee, hendures.bears _ _ _ _ hb⟩
  case held =>
    intro sv' hsv'
    rw [hroots]
    exact ha.held sv' hsv'

/-- **No step brings demands out of order**, takes a demand from its node, or forgets a request. -/
theorem Step.sustains (h : a.Step a') : (a.Upgraded → a'.Upgraded) ∧ a.store.Endures a'.store ∧ a.asked ⊆ a'.asked := by
  cases h with
  | call getters host callee hi hheld hcallee =>
      have hcalled := call_called a getters host _ callee hi hcallee
      exact ⟨fun ha => ha.call hcalled hheld, hcalled.sustains.toEndures, hcalled.asked ▸ List.Subset.refl _⟩
  | ask hsv =>
      rename_i sv
      refine ⟨fun ha => ha.ask hsv, (endures_ask a sv).1, ?_⟩
      unfold Account.ask
      split
      · exact List.Subset.refl _
      · exact List.subset_cons_self _ _
  | leave hrunning =>
      refine ⟨fun ha => ⟨ha.guards, ha.origin, ha.elided, fun sv hsv => ha.held sv ?_⟩, .refl _, List.Subset.refl _⟩
      rw [hrunning]
      exact List.mem_cons_of_mem _ hsv
  | operate op =>
      have hkeeps := keepsCalls_perform a.store op
      exact ⟨fun ha => ha.sustain hkeeps.keepsDemands.sustains fun sv hsv => hkeeps.held _ (ha.held sv hsv).2,
        hkeeps.keepsDemands.sustains.toEndures, List.Subset.refl _⟩
  | close spec enclosing body =>
      have hheld : ∀ r ∈ a.store.roots, r ∈ ((newClosure spec enclosing body).run.run a.store).2.roots := by
        rw [newClosure_run]
        exact (keepsCalls_enclosed a.store spec enclosing).held
      have hkeeps := (keepsDemands_newClosure a.store spec enclosing body).sustains
      exact ⟨fun ha => ha.sustain hkeeps fun sv hsv => hheld _ (ha.held sv hsv).2, hkeeps.toEndures,
        List.Subset.refl _⟩
  | closeIntrinsic spec body =>
      have hkeeps := (keepsDemands_newIntrinsic a.store spec body).sustains
      exact ⟨fun ha => ha.sustain hkeeps fun sv hsv => (ha.held sv hsv).2, hkeeps.toEndures, List.Subset.refl _⟩
  | beyond h hheld =>
      exact ⟨fun ha => ha.sustain h.aloof.keepsDemands.sustains hheld, h.aloof.keepsDemands.sustains.toEndures,
        List.Subset.refl _⟩

/-- So does no run. -/
theorem Run.sustains (h : Run a a') : (a.Upgraded → a'.Upgraded) ∧ a.store.Endures a'.store ∧ a.asked ⊆ a'.asked := by
  induction h with
  | refl => exact ⟨id, .refl _, List.Subset.refl _⟩
  | tail _ hstep ih =>
      obtain ⟨hupgraded, hendures, hasked⟩ := hstep.sustains
      exact ⟨hupgraded ∘ ih.1, ih.2.1.trans hendures, List.Subset.trans ih.2.2 hasked⟩

theorem Upgraded.wantsCaller (ha : a.Upgraded) (hs : a.store.Endures a'.store) {id : NodeId} {demand : CallerDemand}
    {callee : Option CallableId} (hb : a.store.Bears i id demand callee) :
    a'.store.wantsCaller callee = a.store.wantsCaller callee := by
  cases callee with
  | none => rfl
  | some c => exact hs.wantsCaller c (ha.guards.callable i id demand c hb)

/-! ## Handles -/

/-- A call that comes to the body of a closure hands over the caller as the requests before say. -/
theorem Upgraded.handle (ha : a.Upgraded) {σ : Type} (getters : Getters σ) (host : σ)
    (callee : Option CallableId) (hi : a.store.Allocated (.site i))
    (hcallee : ∀ c, ((Chain.calleeVia getters i caller callee).run.run ⟨a.store, host⟩).1 = .ok c →
      a.store.Allocated (.callable c)) {target : TargetId} {inv : Invocation}
    (hentry : ((Chain.callVia getters i caller callee).run.run ⟨a.store, host⟩).1 = .ok (.closure target inv)) :
    ∃ id, (a.call getters host i caller callee).served = ⟨i, id, caller, target, inv⟩ :: a.served
      ∧ (∃ demand f, (a.call getters host i caller callee).store.Bears i id demand f
        ∧ (f = none ∨ f = some inv.callable))
      ∧ (inv.caller.isMaterialized = true ↔
        (a.store.callable inv.callable).wantsCaller = true ∨ (i, id) ∈ a.asked) := by
  have hserved := (call_callVia a getters host i caller callee).2
  have hlist : (Except.ok (Entry.closure target inv) : Except EvalError Entry).toOption.toList.filter Entry.isClosure
      = [.closure target inv] := rfl
  rw [hentry, hlist, List.singleton_append] at hserved
  rcases (call_called a getters host caller callee hi hcallee).hands ha.guards with ⟨-, hsame⟩ | ⟨sv, -, hsv, hhands⟩
  · rw [hsame] at hserved
    exact absurd hserved.symm (List.cons_ne_self _ _)
  · rw [hsv] at hserved
    obtain ⟨hsame, -⟩ := List.cons.inj hserved
    obtain ⟨i', id, caller', target', inv'⟩ := sv
    cases hsame
    obtain rfl : i' = i := hhands.site
    obtain rfl : caller' = caller := hhands.called
    obtain ⟨demand, f, hb, hf, -⟩ := hhands.node
    exact ⟨id, hsv, ⟨demand, f, hb, hf⟩, hhands.upgraded⟩

/-- While a call is in progress, its caller is what its callee is answered. -/
theorem Upgraded.answers (ha : a.Upgraded) {sv : Service} (hsv : sv ∈ a.running) :
    ((callerOf sv.invocation.caller).run a.store).1 = some sv.caller := by
  obtain ⟨hserved, hroot⟩ := ha.held sv hsv
  have horigin := ha.origin sv hserved
  cases hcaller : sv.invocation.caller with
  | materialized x =>
      rw [hcaller] at horigin
      exact congrArg some horigin
  | elided x d =>
      rw [hcaller] at horigin
      obtain rfl : x = sv.caller := horigin
      have hlive : (a.store.demandCaller d).isLive (.activation sv.caller) = true := by
        unfold Store.isLive
        rw [List.contains_iff_mem.2 (show Ref.activation sv.caller ∈ (a.store.demandCaller d).roots from hroot),
          Bool.true_or]
      have hrun : ((callerOf (.elided sv.caller d)).run a.store).1
          = (a.store.demandCaller d).upgradeActivation sv.caller := rfl
      rw [hrun]
      exact if_pos hlive

/-- The demand of a node that is needed stays needed. -/
theorem Upgraded.stays (ha : a.Upgraded) (h : Run a a') {id : NodeId} {demand : CallerDemand}
    {callee : Option CallableId} (hb : a.store.Bears i id demand callee) (hneeded : a.store.demandNeeded demand = true) :
    a'.store.Bears i id demand callee ∧ a'.store.demandNeeded demand = true := by
  obtain ⟨hupgraded, hendures, hasked⟩ := h.sustains
  have hb' := hendures.bears i id demand callee hb
  refine ⟨hb', ((hupgraded ha).guards.needed i id demand callee hb').2 ?_⟩
  rw [ha.wantsCaller hendures hb]
  exact ((ha.guards.needed i id demand callee hb).1 hneeded).imp_right (hasked ·)

/-- The demand of a node becomes needed in one way only: a callee that has been called through that very node asks
    for its caller, by a handle that had not been upgraded. -/
theorem Upgraded.only (ha : a.Upgraded) (h : a.Step a') {id : NodeId} {demand : CallerDemand}
    {callee : Option CallableId} (hb : a.store.Bears i id demand callee) (hno : a.store.demandNeeded demand ≠ true)
    (hyes : a'.store.demandNeeded demand = true) :
    ∃ sv ∈ a.served, sv.site = i ∧ sv.node = id ∧ sv.invocation.caller.isMaterialized = false ∧ a' = a.ask sv := by
  obtain ⟨hupgraded, hendures, -⟩ := h.sustains
  have hneeded := ha.guards.needed i id demand callee hb
  have hneeded' := (hupgraded ha).guards.needed i id demand callee (hendures.bears i id demand callee hb)
  rw [ha.wantsCaller hendures hb] at hneeded'
  -- Functions want their callers or not as before, so what is new is a request.
  have hnew : (i, id) ∈ a'.asked := (hneeded'.1 hyes).resolve_left fun hwants => hno (hneeded.2 (Or.inl hwants))
  have hold : (i, id) ∉ a.asked := fun hin => hno (hneeded.2 (Or.inr hin))
  cases h with
  | ask hsv =>
      rename_i sv
      unfold Account.ask at hnew
      dsimp only at hnew
      split at hnew
      · exact absurd hnew hold
      · rename_i helided
        obtain ⟨rfl, rfl⟩ := Prod.mk.inj ((List.mem_cons.1 hnew).resolve_right hold)
        exact ⟨sv, hsv, rfl, rfl, Bool.eq_false_iff.2 helided, rfl⟩
  | call getters host callee hi hheld hcallee =>
      exact absurd ((call_called a getters host _ callee hi hcallee).asked ▸ hnew) hold
  | leave | operate | close | closeIntrinsic | beyond => exact absurd hnew hold

/-- A function has been called once, through a site of its own. -/
def calledOnce : Account :=
  { Account.new [] with store := oneCaller }.call Chain.zeroGetters () ⟨0⟩ ⟨0⟩ none

/-- The call of the function. -/
def onceServed : Service := ⟨⟨0⟩, ⟨1⟩, ⟨0⟩, ⟨0⟩, ⟨⟨0⟩, ⟨2⟩, .elided ⟨0⟩ ⟨0⟩⟩⟩

theorem run_calledOnce : Run (.new ["g", "f"]) calledOnce := by
  have hmade : Run (.new ["g", "f"]) { Account.new ["g", "f"] with store := twoModules } :=
    (Run.operations (.new ["g", "f"]) [.newLayout "g" .singleton {}, .newScope ⟨0⟩ none 0, .newLayout "s" .singleton {},
      .newScope ⟨1⟩ none 0]).tail (.close { name := ⟨3⟩, label := some "f" } ⟨0⟩ ⟨0⟩)
  have hsited : Run (.new ["g", "f"]) { Account.new [] with store := oneCaller } :=
    hmade.tail (.beyond (Store.foreign_newSite _ rfl) fun _ h => absurd h List.not_mem_nil)
  exact Run.call hsited Chain.zeroGetters () ⟨0⟩ ⟨0⟩ none ⟨0⟩ (by decide +kernel)

end Account

end ScopeCall
