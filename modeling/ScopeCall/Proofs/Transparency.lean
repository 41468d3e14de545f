import ScopeCall.Proofs.Growing

/-!
# `ScopeCall.Proofs.Transparency` — a cached call is a call

What a call gathers does not depend on the nodes of its site, and the nodes give what a match made for this
call only would give. So each way through a chain comes to the same callee with the same values, or to the
same error, as a call that finds nothing cached.

## Contents
- **The same call.** `GathersAlike`, and `Transparent`, which each way through a chain is shown to be.
- **Matched anew.** `runGeneric_transparent`.
- **Cached.** `runDispatch_transparent`, `runFixed_transparent`.
- **Growing.** `runLastly_transparent`, `growShapes_transparent`.
- **Shapes.** `runVariadic_transparent`.
- **Links.** `specialize_transparent`.
-/

namespace ScopeCall

namespace Store

variable {s s' : Store} {i : SiteId}

theorem Alike.bodyOf (h : s.Alike i s') (hbodies : s.BodiesExist) (c : CallableId) :
    (s'.callable c).target?.map s'.bodyOf = (s.callable c).target?.map s.bodyOf := by
  have htarget : (s'.callable c).target? = (s.callable c).target? := by
    rw [h.callable c]
    rfl
  rw [htarget]
  cases ht : (s.callable c).target? with
  | none => rfl
  | some t => exact congrArg (fun target => some target.body) (h.target t (hbodies c t ht))

/-- A function that its caller has in hand. -/
structure InHand (s : Store) (c : CallableId) : Prop where
  made : s.Allocated (.callable c)
  held : Ref.callable c ∈ s.roots

theorem InHand.hold {c : CallableId} (h : s.InHand c) (rs : List Ref) : (s.hold rs).InHand c := by
  refine ⟨h.made, ?_⟩
  have hroots : (s.hold rs).roots = rs ++ s.roots := List.append_assoc _ _ _
  rw [hroots]
  exact List.mem_append_right rs h.held

theorem InHand.alike {c : CallableId} (h : s.InHand c) (hs : s.Alike i s') : s'.InHand c :=
  ⟨(hs.allocated _).2 h.made, (hs.roots _).2 h.held⟩

/-- The nodes of a site are in order. -/
def Serves (s : Store) (i : SiteId) : Prop := ∃ owner, s.Served i owner

end Store

namespace Chain

variable {σ : Type} {getters : Getters σ} {i : SiteId} {caller : ActivationId} {c : CallableId}
  {m m₀ m' m'' : Machine σ} {owner : Nat → Option CallableId}

/-! ## The same call -/

/-- A call gathers the same on two machines, and leaves them alike. -/
structure GathersAlike (getters : Getters σ) (i : SiteId) (caller : ActivationId) (c : CallableId)
    (m m' : Machine σ) : Prop where
  same : ((gather getters i caller c).run.run m').1 = ((gather getters i caller c).run.run m).1
  alike : ((gather getters i caller c).run.run m).2.Alike i ((gather getters i caller c).run.run m').2
  maxDepth : (m'.store.site i).maxDepth = (m.store.site i).maxDepth

theorem GathersAlike.of_alike (h : m.Alike i m') : GathersAlike getters i caller c m m' :=
  ⟨((gather_apart getters caller c).blind h).1, ((gather_apart getters caller c).blind h).2,
    h.store.siteMaxDepth⟩

theorem GathersAlike.trans (h : GathersAlike getters i caller c m m')
    (h' : GathersAlike getters i caller c m' m'') : GathersAlike getters i caller c m m'' :=
  ⟨h'.same.trans h.same, h.alike.trans h'.alike, h'.maxDepth.trans h.maxDepth⟩

/-- A site that matches by the standard rules does so on both machines. -/
theorem standard_of_alike (h : m.Alike i m') (hs : m'.store.Served i owner) :
    (m.store.site i).matcher = .standard :=
  h.store.siteMatcher.symm.trans hs.standard

/-- Where a node has been made for a function, the names of the arguments have been checked. -/
theorem checked_of_alike (h : m.Alike i m') (hs : m'.store.Served i owner) {id : NodeId} {n : Node}
    (hn : (m'.store.site i).nodes[id.index]? = some n) (howner : owner id.index = some c) :
    Arguments.checkNames (m.store.site i).args = .ok () := by
  have hid : id.index < (m'.store.site i).nodes.size := (Array.getElem?_eq_some_iff.1 hn).1
  have hchecked := hs.checked _ hid (by rw [howner]; exact Option.some_ne_none c)
  rw [h.store.siteArgs] at hchecked
  exact hchecked

/-- What is held already may be held once more. -/
theorem holding_holding (m : Machine σ) (groups : List GroupId) :
    (holding m groups).Alike i (holding (holding m groups) groups) := by
  refine ⟨⟨rfl, rfl, fun _ _ => rfl, rfl, rfl, fun _ => rfl, le_rfl, fun _ _ => rfl, fun r => ?_,
    fun _ hr => hr, fun _ hr => Or.inl hr⟩, rfl⟩
  show r ∈ _ ++ (_ ++ _) ↔ r ∈ _ ++ _
  rw [List.mem_append, or_iff_right_of_imp fun hr => List.mem_append_left _ hr]

/-- The groups that a call forwards may be held before it starts. -/
theorem GathersAlike.of_holding (hstandard : (m.store.site i).matcher = .standard)
    (hchecked : Arguments.checkNames (m.store.site i).args = .ok ()) {groups : List GroupId}
    (hgroups : Arguments.readGroups (m.store.site i).args m.store caller = .ok groups) :
    GathersAlike getters i caller c m (holding m groups) := by
  have hscopes : m.store.SameScopes (holding m groups).store := ⟨rfl, fun _ => rfl, fun _ => rfl, rfl⟩
  have hread : Arguments.readGroups (m.store.site i).args (holding m groups).store caller
      = Arguments.readGroups (m.store.site i).args m.store caller := by
    unfold Arguments.readGroups
    rw [hscopes.lookupDynamic]
  have hsite : (holding m groups).store.site = m.store.site := rfl
  have hmatch : (holding m groups).store.matchStandard c = m.store.matchStandard c := rfl
  have hentries : Arguments.entriesOf (holding m groups).store = Arguments.entriesOf m.store := rfl
  suffices hsame : ((gather getters i caller c).run.run (holding m groups)).1
      = ((gather getters i caller c).run.run m).1
      ∧ ((gather getters i caller c).run.run m).2.Alike i
        ((gather getters i caller c).run.run (holding m groups)).2 from ⟨hsame.1, hsame.2, rfl⟩
  rw [gather_run getters caller c hstandard, gather_run getters caller c (hsite ▸ hstandard), hsite, hread,
    hchecked, hgroups, hentries, hmatch]
  dsimp only
  cases m.store.matchStandard c _ true with
  | error e => exact ⟨rfl, holding_holding m groups⟩
  | ok matched => exact (collect_apart getters _ caller c _ _ matched).blind (holding_holding m groups)

/-- **A call has come to what it comes to where nothing is cached**: to the same error, or to the same callee
    with the same values and the same body, on a machine that differs only in what calls keep. -/
def Transparent (getters : Getters σ) (i : SiteId) (caller : ActivationId) (c : CallableId)
    (m : Machine σ) (result : Except EvalError Entry × Machine σ) : Prop :=
  match (gather getters i caller c).run.run m with
  | (.error e, m₁) => result.1 = .error e ∧ m₁.Alike i result.2 ∧ result.2.store.Serves i
  | (.ok bound, m₁) => ∃ target demand m₂, m₁.Alike i m₂ ∧ m₂.store.Serves i
      ∧ target.map m₂.store.bodyOf = (m₁.store.callable c).target?.map m₁.store.bodyOf
      ∧ result = (EvalM.onCall (Store.invoke (m.store.site i).maxDepth caller c target bound
          demand)).run.run m₂

/-- A call that ends in the error that gathering ends in. -/
theorem transparent_of_error {e : EvalError} {m₁ m₂ : Machine σ}
    (hgather : (gather getters i caller c).run.run m = (.error e, m₁)) (halike : m₁.Alike i m₂)
    (hs : m₂.store.Served i owner) : Transparent getters i caller c m (.error e, m₂) := by
  unfold Transparent
  rw [hgather]
  exact ⟨rfl, halike, owner, hs⟩

/-! ## Matched anew -/

theorem runGeneric_transparent (h : GathersAlike getters i caller c m m') (hbodies : m.store.BodiesExist)
    (hs : m'.store.Served i owner) (demand : CallerDemand) :
    Transparent getters i caller c m ((runGeneric getters i demand caller c).run.run m') := by
  have hkeeps := (gather_apart (i := i) getters caller c).keeps m'
  have hbodies₁ := ((gather_apart (i := i) getters caller c).keeps m).bodies hbodies
  obtain ⟨hsame, halike, hdepth⟩ := h
  rw [runGeneric_run, hdepth]
  unfold Transparent
  generalize (gather getters i caller c).run.run m = gathered at *
  generalize (gather getters i caller c).run.run m' = gathered' at *
  rcases gathered with ⟨r, m₁⟩
  rcases gathered' with ⟨r', m₁'⟩
  obtain rfl : r' = r := hsame
  have hserves : m₁'.store.Serves i := ⟨owner, hs.meanwhile hkeeps⟩
  cases r' with
  | error e => exact ⟨rfl, halike, hserves⟩
  | ok bound => exact ⟨_, demand, m₁', halike, hserves, halike.store.bodyOf hbodies₁ c, rfl⟩

/-! ## Cached -/

/-- Binding looks at no more of a match than where each value comes from. -/
theorem collect_congr {matched matched' : MatchedArguments} (h : matched'.sources = matched.sources)
    (args : Arguments) (entries : List (List GroupEntry)) (names : SuppliedNames) :
    collect getters args caller c entries names matched'
      = collect getters args caller c entries names matched := by
  unfold collect MatchedArguments.bind
  rw [h]

/-- **Running a cached callee is collecting its values and then invoking.** -/
theorem runDispatch_run (id : NodeId) (d : Dispatch) (args : Arguments) (entries : List (List GroupEntry))
    (names : SuppliedNames) (m : Machine σ) :
    (do let values ← Arguments.evaluate getters caller args entries
        EvalM.onCall (runDispatch i id d caller names values) : EvalM σ Entry).run.run m
      = match (collect getters args caller d.callable entries names d.matched).run.run m with
        | (.ok bound, m₁) => (EvalM.onCall (Store.invoke (m₁.store.site i).maxDepth caller d.callable
            ((dispatchTarget i id d).run m₁.store).1 bound d.demand)).run.run
              { m₁ with store := ((dispatchTarget i id d).run m₁.store).2 }
        | (.error e, m₁) => (.error e, m₁) := by
  unfold collect
  rw [EvalM.run_bind, EvalM.run_bind]
  generalize (Arguments.evaluate getters caller args entries).run.run m = result
  rcases result with ⟨e | values, m₁⟩ <;> rfl

theorem runDispatch_transparent {args : Arguments} {entries : List (List GroupEntry)}
    {names : SuppliedNames} {matched : MatchedArguments} {id : NodeId} {n : Node} {d : Dispatch}
    (hgather : (gather getters i caller c).run.run m
      = (collect getters args caller c entries names matched).run.run m₀)
    (halike : m₀.Alike i m') (hdepth : (m'.store.site i).maxDepth = (m.store.site i).maxDepth)
    (hbodies : m₀.store.BodiesExist) (hs : m'.store.Served i owner)
    (hn : (m'.store.site i).nodes[id.index]? = some n) (hd : dispatchOf? n = some d)
    (hc : d.callable = c) (hsources : d.matched.sources = matched.sources) :
    Transparent getters i caller c m
      ((do let values ← Arguments.evaluate getters caller args entries
           EvalM.onCall (runDispatch i id d caller names values) : EvalM σ Entry).run.run m') := by
  subst hc
  have hapart := collect_apart (i := i) getters args caller d.callable entries names matched
  have hkeeps := hapart.keeps m'
  have hbodies₁ := (hapart.keeps m₀).bodies hbodies
  obtain ⟨hsame, halike₁⟩ := hapart.blind halike
  rw [runDispatch_run, collect_congr hsources]
  unfold Transparent
  rw [hgather]
  generalize (collect getters args caller d.callable entries names matched).run.run m₀ = result at *
  generalize (collect getters args caller d.callable entries names matched).run.run m' = result' at *
  rcases result with ⟨r, m₁⟩
  rcases result' with ⟨r', m₁'⟩
  obtain rfl : r' = r := hsame
  cases r' with
  | error e => exact ⟨rfl, halike₁, owner, hs.meanwhile hkeeps⟩
  | ok bound =>
      have hn₁ : (m₁'.store.site i).nodes[id.index]? = some n := by
        rw [hkeeps.site]
        exact hn
      obtain ⟨hserved, hcopied, hbody⟩ := Store.dispatchTarget_spec (hs.meanwhile hkeeps) hn₁ hd
      refine ⟨_, d.demand, { m₁' with store := ((dispatchTarget i id d).run m₁'.store).2 },
        halike₁.trans ⟨hcopied, rfl⟩, ⟨owner, hserved⟩,
        hbody.trans (halike₁.store.bodyOf hbodies₁ _), ?_⟩
      dsimp only
      rw [hkeeps.site, hdepth]

theorem flattenedNames_nil (args : Arguments) :
    Arguments.flattenedNames args [] = Arguments.staticNames args := by
  induction args with
  | nil => rfl
  | cons spec rest ih =>
      unfold Arguments.flattenedNames
      rw [ih]
      unfold Arguments.staticNames
      cases hforward : spec.isForward with
      | true => rw [List.filter_cons_of_neg (by simp [hforward]), if_pos rfl]
      | false =>
          rw [List.filter_cons_of_pos (by simp [hforward]), if_neg Bool.false_ne_true]
          rfl

/-- Gathering for a call without forwards. -/
theorem gather_run_static (getters : Getters σ) (caller : ActivationId) (c : CallableId)
    (hstandard : (m.store.site i).matcher = .standard)
    (hchecked : Arguments.checkNames (m.store.site i).args = .ok ())
    (hforwards : Arguments.forwardsVariadic (m.store.site i).args = false) :
    (gather getters i caller c).run.run m
      = match m.store.matchStandard c (Arguments.staticNames (m.store.site i).args) true with
        | .error e => (.error e, m)
        | .ok matched => (collect getters (m.store.site i).args caller c []
            (Arguments.staticNames (m.store.site i).args) matched).run.run m := by
  have hgroups : Arguments.readGroups (m.store.site i).args m.store caller = .ok [] := by
    unfold Arguments.readGroups
    rw [hforwards]
    rfl
  have hentries : Arguments.entriesOf m.store [] = [] := rfl
  have hholding : holding m [] = m := rfl
  have hgather := gather_run getters caller c hstandard
  rw [hchecked, hgroups] at hgather
  dsimp only at hgather
  rw [hentries, flattenedNames_nil, hholding] at hgather
  exact hgather

/-- What a dispatch has matched is what a call would match now, whoever may reorder what. -/
theorem matchStandard_of_upToDate {s : Store} {names : SuppliedNames} {d : Dispatch}
    (h : d.UpToDate s names) (allowReorder : Bool) :
    s.matchStandard d.callable names allowReorder
      = .ok { d.matched with allowsReorder := allowReorder } :=
  Matching.run_respell h.matched _ _ _

/-- **A callee cached without shapes gets what it would get uncached.** -/
theorem runFixed_transparent (halike : m.Alike i m') (hbodies : m.store.BodiesExist)
    (hs : m'.store.Served i owner) {id : NodeId} {d : Dispatch}
    (hn : (m'.store.site i).nodes[id.index]? = some (.fixed d)) (hc : d.callable = c) :
    Transparent getters i caller c m ((runFixed getters i id d caller).run.run m') := by
  obtain ⟨howner, hforwards, hdispatch⟩ := hs.fits _ _ hn
  have hmatch := matchStandard_of_upToDate hdispatch true
  rw [halike.store.siteArgs] at hforwards hmatch
  rw [halike.store.matchStandard, hc] at hmatch
  have hgather := gather_run_static getters caller c (standard_of_alike halike hs)
    (checked_of_alike halike hs hn howner) hforwards
  rw [hmatch] at hgather
  unfold runFixed
  rw [EvalM.run_store_bind, halike.store.siteArgs]
  exact runDispatch_transparent hgather halike halike.store.siteMaxDepth hbodies hs hn rfl hc rfl

/-! ## Growing -/

/-- **A call that ends a chain, or a list of shapes, is matched anew.** -/
theorem runLastly_transparent (h : GathersAlike getters i caller c m m') (hbodies : m.store.BodiesExist)
    (hs : m'.store.Served i owner) {id : NodeId} {old : Node} {final : CallerDemand → Node}
    (hold : (m'.store.site i).nodes[id.index]? = some old)
    (hends : ∀ demand, (old.EndsLinks ∧ (final demand).EndsLinks)
      ∨ (old.EndsShapes ∧ (final demand).EndsShapes)) :
    Transparent getters i caller c m ((runLastly getters i id final caller c).run.run m') := by
  have hdemand : (demanding m'.store false).Served i owner := hs.meanwhile (.of_eq rfl rfl rfl)
  obtain ⟨hserved, halike⟩ := hdemand.close hold (hends ⟨m'.store.demands.size⟩)
  rw [← setNode_eq] at hserved halike
  have hrun : (runLastly getters i id final caller c).run.run m'
      = (runGeneric getters i ⟨m'.store.demands.size⟩ caller c).run.run
        ⟨setNode (demanding m'.store false) i id (final ⟨m'.store.demands.size⟩), m'.host⟩ := rfl
  have hgathers : GathersAlike getters i caller c m
      ⟨setNode (demanding m'.store false) i id (final ⟨m'.store.demands.size⟩), m'.host⟩ :=
    h.trans (.of_alike ⟨(Store.alike_demands i m'.store _).trans halike, rfl⟩)
  rw [hrun]
  exact runGeneric_transparent hgathers hbodies hserved _

/-- Adds a shape with what has been matched for it, and runs through it. -/
def shapeTo (getters : Getters σ) (i : SiteId) (id : NodeId) (depth limit : Nat) (signature : SuppliedNames)
    (args : Arguments) (entries : List (List GroupEntry)) (caller : ActivationId) (c : CallableId)
    (matched : MatchedArguments) : EvalM σ Entry := do
  let next ← EvalM.onStore <| do
    if depth + 1 < limit then addNode i (.variadicVacant (depth + 1))
    else addNode i (.variadicGeneric (← Store.newDemand false))
  let d ← EvalM.onStore (newDispatch c matched)
  EvalM.onStore (modify (setNode · i id (.variadicCase signature d next)))
  let values ← Arguments.evaluate getters caller args entries
  EvalM.onCall (runDispatch i id d caller signature values)

/-- A call that finds no shape matches its names and adds one. -/
theorem growShapes_eq (getters : Getters σ) (i : SiteId) (id : NodeId) (depth : Nat)
    (signature : SuppliedNames) (entries : List (List GroupEntry)) (caller : ActivationId)
    (c : CallableId) :
    growShapes getters i id depth signature entries caller c = (do
      let site := (← EvalM.store).site i
      if depth ≥ site.limits.variadicDepth then
        runLastly getters i id .variadicGeneric caller c
      else
        let matched ← EvalM.onCall (Store.runMatcher site.matcher c signature site.source false)
        shapeTo getters i id depth site.limits.variadicDepth signature site.args entries caller c
          matched) := rfl

/-- The nodes that a list of shapes gets when it grows. -/
theorem shapeTo_run (getters : Getters σ) (caller : ActivationId) (c : CallableId)
    (hi : m.store.Allocated (.site i)) (id : NodeId) (depth limit : Nat)
    (signature : SuppliedNames) (args : Arguments) (entries : List (List GroupEntry))
    (matched : MatchedArguments) :
    ∃ (ds : Array Guard) (s₁ : Store) (last : Node), last.ClosesShapes limit (depth + 1)
      ∧ (shapeTo getters i id depth limit signature args entries caller c matched).run.run m
        = (do let values ← Arguments.evaluate getters caller args entries
              EvalM.onCall (runDispatch i id (freshDispatch s₁ c matched) caller signature values) :
            EvalM σ Entry).run.run
          ⟨({ m.store with demands := ds }).setNodes i (Store.extended (m.store.site i).nodes #[last] id
            (.variadicCase signature (freshDispatch s₁ c matched) ⟨(m.store.site i).nodes.size⟩)),
            m.host⟩ := by
  obtain ⟨ds, last, hlast, hrun⟩ := addShapesEnd_run m.store i depth limit
  unfold shapeTo
  rw [EvalM.run_onStore_bind, hrun, EvalM.run_onStore_bind, newDispatch_run, EvalM.run_onStore_bind]
  refine ⟨(demanding { m.store with demands := ds } (m.store.callable c).wantsCaller).demands,
    ({ m.store with demands := ds }).setNodes i ((m.store.site i).nodes ++ #[last]), last, hlast, ?_⟩
  have hset := setNode_setNodes (s := demanding { m.store with demands := ds }
    (m.store.callable c).wantsCaller) (i := i) hi #[last] id
  exact congrArg _ (congrArg (Machine.mk · m.host) (hset _))

/-- A list of shapes grows, or the names do not match. -/
theorem growShapes_run (id : NodeId) (depth : Nat) (signature : SuppliedNames)
    (entries : List (List GroupEntry)) (hi : m.store.Allocated (.site i))
    (hstandard : (m.store.site i).matcher = .standard)
    (hdepth : ¬ depth ≥ (m.store.site i).limits.variadicDepth) :
    (∃ e, m.store.matchStandard c signature false = .error e
      ∧ (growShapes getters i id depth signature entries caller c).run.run m = (.error e, m))
    ∨ ∃ matched ds last s₁, m.store.matchStandard c signature false = .ok matched ∧ last.EndsShapes
      ∧ (growShapes getters i id depth signature entries caller c).run.run m
        = (do let values ← Arguments.evaluate getters caller (m.store.site i).args entries
              EvalM.onCall (runDispatch i id (freshDispatch s₁ c matched) caller signature values) :
            EvalM σ Entry).run.run
          ⟨({ m.store with demands := ds }).setNodes i (Store.extended (m.store.site i).nodes #[last] id
            (.variadicCase signature (freshDispatch s₁ c matched) ⟨(m.store.site i).nodes.size⟩)),
            m.host⟩ := by
  rw [growShapes_eq, EvalM.run_store_bind]
  dsimp only
  rw [if_neg hdepth, hstandard, EvalM.run_bind, EvalM.run_onCall, Store.runMatcher_standard]
  cases hmatch : m.store.matchStandard c signature false with
  | error e => exact Or.inl ⟨e, rfl, rfl⟩
  | ok matched =>
      obtain ⟨ds, s₁, last, hlast, hrun⟩ := shapeTo_run getters caller c hi id depth
        (m.store.site i).limits.variadicDepth signature (m.store.site i).args entries matched
      exact Or.inr ⟨matched, ds, last, s₁, rfl, hlast.ends, hrun⟩

/-- **A call that adds a shape gets what it would get without.** -/
theorem growShapes_transparent {groups : List GroupId} {entries : List (List GroupEntry)}
    {names : SuppliedNames} {id : NodeId} {depth : Nat}
    (hgroups : Arguments.readGroups (m.store.site i).args m.store caller = .ok groups)
    (hentries : Arguments.entriesOf m.store groups = entries)
    (hnames : Arguments.flattenedNames (m.store.site i).args entries = names)
    (halike : (holding m groups).Alike i m') (hbodies : m.store.BodiesExist) (hc : m.store.InHand c)
    (hs : m'.store.Served i owner)
    (hn : (m'.store.site i).nodes[id.index]? = some (.variadicVacant depth))
    (howner : owner id.index = some c) :
    Transparent getters i caller c m
      ((growShapes getters i id depth names entries caller c).run.run m') := by
  have hid : id.index < (m'.store.site i).nodes.size := (Array.getElem?_eq_some_iff.1 hn).1
  -- Holding groups changes no site.
  have hstandard : ((holding m groups).store.site i).matcher = .standard := standard_of_alike halike hs
  have hchecked : Arguments.checkNames ((holding m groups).store.site i).args = .ok () :=
    checked_of_alike halike hs hn howner
  have hsite : (holding m groups).store.site i = m.store.site i := rfl
  rw [hsite] at hstandard hchecked
  by_cases hdepth : depth ≥ (m'.store.site i).limits.variadicDepth
  · unfold growShapes
    rw [EvalM.run_store_bind]
    dsimp only
    rw [if_pos hdepth]
    exact runLastly_transparent ((GathersAlike.of_holding hstandard hchecked hgroups).trans
      (.of_alike halike)) hbodies hs hn fun _ => Or.inr ⟨trivial, trivial⟩
  have hgather := gather_run getters caller c hstandard
  rw [hchecked, hgroups] at hgather
  dsimp only at hgather
  rw [hentries, hnames] at hgather
  have hmatch : m'.store.matchStandard c names false = m.store.matchStandard c names false :=
    halike.store.matchStandard c names false
  rcases growShapes_run id depth names entries hs.site hs.standard hdepth with
    ⟨e, herror, hrun⟩ | ⟨matched, ds, last, s₁, hok, hlast, hrun⟩
  · have hanew : m.store.matchStandard c names true = .error e :=
      Matching.run_error (hmatch.symm.trans herror) true
    rw [hanew] at hgather
    rw [hrun]
    exact transparent_of_error hgather halike hs
  · have hanew : m.store.matchStandard c names true = .ok { matched with allowsReorder := true } :=
      Matching.run_respell (hmatch.symm.trans hok) _ _ _
    rw [hanew] at hgather
    have hc' : m'.store.InHand c := (hc.hold _).alike halike.store
    have hserved₀ : ({ m'.store with demands := ds } : Store).Served i owner :=
      hs.meanwhile (.of_eq rfl rfl rfl)
    have hfresh := upToDate_freshDispatch (s := { m'.store with demands := ds }) hc'.made hok s₁
    obtain ⟨owner', hserved, hgrown⟩ :=
      hserved₀.growShapes hn trivial hlast howner hfresh hc'.held
    have hall := halike.store.trans ((Store.alike_demands i m'.store ds).trans hgrown)
    rw [hrun, halike.store.siteArgs]
    exact runDispatch_transparent hgather ⟨hall, halike.host⟩ hall.siteMaxDepth hbodies hserved
      (Store.node_extended hserved₀.site hid _ _) rfl rfl rfl

/-! ## Shapes -/

theorem run_ofFault_bind {α β : Type} (r : β) (f : β → EvalM σ α) :
    ((ofFault (.ok r) : EvalM σ β) >>= f).run.run m = (f r).run.run m := rfl

/-- **A call that goes through a list of shapes gets what it would get without.** -/
theorem runVariadic_transparent (halike : m.Alike i m') (hbodies : m.store.BodiesExist)
    (hc : m.store.InHand c) (hs : m'.store.Served i owner) {start : NodeId} {first : Node}
    (hfirst : (m'.store.site i).nodes[start.index]? = some first) (howner : owner start.index = some c)
    (hforwards : Arguments.forwardsVariadic (m'.store.site i).args = true) :
    Transparent getters i caller c m ((runVariadic getters i start caller c).run.run m') := by
  have hin : start.index < (m'.store.site i).nodes.size := (Array.getElem?_eq_some_iff.1 hfirst).1
  have hstandard := standard_of_alike halike hs
  have hchecked := checked_of_alike halike hs hfirst howner
  have hgather := gather_run getters caller c hstandard
  rw [hchecked] at hgather
  dsimp only at hgather
  unfold runVariadic
  rw [EvalM.run_store_bind]
  dsimp only
  rw [EvalM.run_ofExcept_bind, halike.store.siteArgs, halike.store.readGroups, halike.store.entriesOf]
  cases hgroups : Arguments.readGroups (m.store.site i).args m.store caller with
  | error e =>
      rw [hgroups] at hgather
      exact transparent_of_error hgather halike hs
  | ok groups =>
      rw [hgroups] at hgather
      dsimp only at hgather ⊢
      have hhold : ∀ f : Unit → EvalM σ Entry, (EvalM.hold (groups.map Value.group) >>= f).run.run m'
          = (f ()).run.run (holding m' groups) := fun f => rfl
      rw [hhold]
      have halike' : (holding m groups).Alike i (holding m' groups) := ⟨halike.store.hold _, halike.host⟩
      have hs' : (holding m' groups).store.Served i owner := hs.meanwhile (.of_eq rfl rfl rfl)
      generalize hentries : Arguments.entriesOf m.store groups = entries at hgather ⊢
      generalize hnames : Arguments.flattenedNames (m.store.site i).args entries = names at hgather ⊢
      obtain ⟨id, n, hfollow, hn, hmade, hkind⟩ := hs.followShapes names
        ((m'.store.site i).nodes.size + 1) start hin (by omega) howner hforwards
      rw [hfollow, run_ofFault_bind]
      rcases hkind with ⟨d, next, rfl⟩ | ⟨depth, rfl⟩ | ⟨demand, rfl⟩
      · obtain ⟨howner', -, -, hdispatch⟩ := hs.fits _ _ hn
        have hcallable : d.callable = c := Option.some.inj (howner'.symm.trans hmade)
        have hanew := matchStandard_of_upToDate hdispatch true
        rw [halike.store.matchStandard, hcallable] at hanew
        rw [hanew] at hgather
        exact runDispatch_transparent hgather halike' halike'.store.siteMaxDepth hbodies hs' hn rfl
          hcallable rfl
      · exact growShapes_transparent hgroups hentries hnames halike' hbodies hc hs' hn hmade
      · exact runGeneric_transparent ((GathersAlike.of_holding hstandard hchecked hgroups).trans
          (.of_alike halike')) hbodies hs' demand

/-! ## Links -/

/-- Adds a link to a handler, and runs through it. -/
def linkTo (getters : Getters σ) (i : SiteId) (id : NodeId) (depth limit : Nat) (caller : ActivationId)
    (c : CallableId) (handler : Node) : EvalM σ Entry := do
  let (handlerId, next) ← EvalM.onStore <| do
    let tail ← if depth + 1 < limit then pure (Node.vacant (depth + 1))
      else Node.generic <$> Store.newDemand false
    let handlerId ← addNode i handler
    let next ← addNode i tail
    return (handlerId, next)
  EvalM.onStore (modify (setNode · i id (.link c handlerId next)))
  match handler with
  | .fixed d => runFixed getters i handlerId d caller
  | _        => runVariadic getters i handlerId caller c

/-- Runs through the handler that a link has just got. -/
def runHandler (getters : Getters σ) (i : SiteId) (handlerId : NodeId) (caller : ActivationId) (c : CallableId) :
    Node → EvalM σ Entry
  | .fixed d => runFixed getters i handlerId d caller
  | _        => runVariadic getters i handlerId caller c

/-- The nodes that a chain gets when it grows. -/
theorem linkTo_nodes (getters : Getters σ) (caller : ActivationId) (c : CallableId)
    (hi : m.store.Allocated (.site i)) (id : NodeId) (depth limit : Nat) (handler : Node) :
    ∃ (ds : Array Guard) (tail : Node), tail.ClosesLinks limit (depth + 1)
      ∧ (linkTo getters i id depth limit caller c handler).run.run m
        = (runHandler getters i ⟨(m.store.site i).nodes.size⟩ caller c handler).run.run
          ⟨({ m.store with demands := ds }).setNodes i (Store.extended (m.store.site i).nodes
            #[handler, tail] id (.link c ⟨(m.store.site i).nodes.size⟩ ⟨(m.store.site i).nodes.size + 1⟩)),
            m.host⟩ := by
  obtain ⟨ds, tail, htail, hrun⟩ := addLink_run hi handler depth limit
  refine ⟨ds, tail, htail, ?_⟩
  unfold linkTo
  rw [EvalM.run_onStore_bind, hrun]
  dsimp only
  rw [EvalM.run_onStore_bind]
  have hset := setNode_setNodes (s := { m.store with demands := ds }) hi #[handler, tail] id
    (.link c ⟨(m.store.site i).nodes.size⟩ ⟨(m.store.site i).nodes.size + 1⟩)
  exact congrArg _ (congrArg (Machine.mk · m.host) hset)

/-- **A link in good order**: it leads to its handler, and nobody can tell that it was added. -/
theorem linkTo_run (getters : Getters σ) (caller : ActivationId) (hc : m.store.InHand c)
    (hs : m.store.Served i owner) {id : NodeId} {depth : Nat}
    (hn : (m.store.site i).nodes[id.index]? = some (.vacant depth))
    (hchecked : Arguments.checkNames (m.store.site i).args = .ok ()) {handler : Node}
    (hhandler : ∀ (site : CallSite) owner' k, site.args = (m.store.site i).args → owner' k = some c →
      handler.Fits m.store site owner' k)
    (hcallables : ∀ c' ∈ handler.callables, c' = c) (limit : Nat) :
    ∃ m' owner' handlerId, m.Alike i m' ∧ m'.store.Served i owner'
      ∧ owner' handlerId.index = some c ∧ (m'.store.site i).nodes[handlerId.index]? = some handler
      ∧ (linkTo getters i id depth limit caller c handler).run.run m
        = (runHandler getters i handlerId caller c handler).run.run m' := by
  have hid : id.index < (m.store.site i).nodes.size := (Array.getElem?_eq_some_iff.1 hn).1
  obtain ⟨ds, tail, htail, hrun⟩ := linkTo_nodes getters caller c hs.site id depth limit handler
  have hserved₀ : ({ m.store with demands := ds } : Store).Served i owner :=
    hs.meanwhile (.of_eq rfl rfl rfl)
  have hhandler₀ : ∀ (site : CallSite) owner' k, site.args = (m.store.site i).args →
      owner' k = some c → handler.Fits { m.store with demands := ds } site owner' k :=
    fun site owner' k hargs hmade => (hhandler site owner' k hargs hmade).transfer rfl rfl
      (fun _ _ hb => hb) fun _ _ hd => ⟨hd.made, hd.matched, hd.dedicated⟩
  obtain ⟨owner', hmade, hserved, hgrown⟩ :=
    hserved₀.growLinks hn trivial htail.ends hchecked hhandler₀ hcallables hc.held
  refine ⟨⟨_, m.host⟩, owner', ⟨(m.store.site i).nodes.size⟩,
    ⟨(Store.alike_demands i m.store ds).trans hgrown, rfl⟩, hserved, hmade, ?_, hrun⟩
  show (((({ m.store with demands := ds } : Store).setNodes i _).site i).nodes)[_]? = _
  rw [Store.site_setNodes hserved₀.site]
  refine (Store.getElem?_extended hid _).trans ?_
  rw [if_neg (Nat.ne_of_gt hid), if_neg (Nat.lt_irrefl _), Nat.sub_self]
  rfl

/-- A new link to a list of shapes: the list is empty, and the call adds the first. -/
theorem linkShapes_transparent (hc : m.store.InHand c) (hs : m.store.Served i owner) {id : NodeId}
    {depth : Nat} (hn : (m.store.site i).nodes[id.index]? = some (.vacant depth))
    (hchecked : Arguments.checkNames (m.store.site i).args = .ok ())
    (hforwards : Arguments.forwardsVariadic (m.store.site i).args = true) (limit : Nat) :
    Transparent getters i caller c m
      ((linkTo getters i id depth limit caller c (.variadicVacant 0)).run.run m) := by
  have hhandler : ∀ (site : CallSite) (owner' : Nat → Option CallableId) k,
      site.args = (m.store.site i).args → owner' k = some c →
      (Node.variadicVacant 0).Fits m.store site owner' k :=
    fun site owner' k hargs hmade => ⟨hmade ▸ Option.some_ne_none c, hargs ▸ hforwards⟩
  obtain ⟨m', owner', handlerId, halike, hs', hmade, hn', hrun⟩ :=
    linkTo_run getters caller hc hs hn hchecked hhandler (fun c' hc' => by cases hc') limit
  rw [hrun]
  exact runVariadic_transparent halike hs.bodies hc hs' hn' hmade (halike.store.siteArgs ▸ hforwards)

/-- A new link to a callee whose arguments have been matched. -/
theorem linkFixed_transparent (hc : m.store.InHand c) (hs : m.store.Served i owner) {id : NodeId}
    {depth : Nat} (hn : (m.store.site i).nodes[id.index]? = some (.vacant depth))
    (hchecked : Arguments.checkNames (m.store.site i).args = .ok ())
    (hforwards : Arguments.forwardsVariadic (m.store.site i).args = false) {matched : MatchedArguments}
    (hmatch : m.store.matchStandard c (Arguments.staticNames (m.store.site i).args) false = .ok matched)
    (limit : Nat) :
    Transparent getters i caller c m
      ((linkTo getters i id depth limit caller c (.fixed (freshDispatch m.store c matched))).run.run
        ⟨demanding m.store (m.store.callable c).wantsCaller, m.host⟩) := by
  have hfresh := upToDate_freshDispatch hc.made hmatch m.store
  have hserved : (demanding m.store (m.store.callable c).wantsCaller).Served i owner :=
    hs.meanwhile (.of_eq rfl rfl rfl)
  have hdemand : m.Alike i ⟨demanding m.store (m.store.callable c).wantsCaller, m.host⟩ :=
    ⟨Store.alike_demands i m.store _, rfl⟩
  have hhandler : ∀ (site : CallSite) (owner' : Nat → Option CallableId) k,
      site.args = (m.store.site i).args → owner' k = some c →
      (Node.fixed (freshDispatch m.store c matched)).Fits
        (demanding m.store (m.store.callable c).wantsCaller) site owner' k := by
    intro site owner' k hargs hmade
    unfold Node.Fits
    rw [hargs]
    exact ⟨hmade, hforwards, hfresh.made, hfresh.matched, hfresh.dedicated⟩
  obtain ⟨m', owner', handlerId, halike, hs', -, hn', hrun⟩ :=
    linkTo_run (m := ⟨demanding m.store _, m.host⟩) getters caller ⟨hc.made, hc.held⟩ hserved hn hchecked
      hhandler (fun c' hc' => List.mem_singleton.1 hc') limit
  rw [hrun]
  exact runFixed_transparent (hdemand.trans halike) hs.bodies hs' hn' rfl

/-- A call that finds no link makes a handler and links to it. -/
theorem specialize_eq (getters : Getters σ) (i : SiteId) (id : NodeId) (depth : Nat)
    (caller : ActivationId) (c : CallableId) :
    specialize getters i id depth caller c = (do
      let site := (← EvalM.store).site i
      EvalM.ofExcept (Arguments.checkNames site.args)
      if depth ≥ site.limits.functionDepth then
        runLastly getters i id .generic caller c
      else
        let handler ←
          if Arguments.forwardsVariadic site.args then pure (Node.variadicVacant 0)
          else
            let names := Arguments.staticNames site.args
            let matched ← EvalM.onCall (Store.runMatcher site.matcher c names site.source false)
            Node.fixed <$> EvalM.onStore (newDispatch c matched)
        linkTo getters i id depth site.limits.functionDepth caller c handler) := rfl

theorem newFixed_run (c : CallableId) (matched : MatchedArguments) (m : Machine σ) :
    (Node.fixed <$> EvalM.onStore (newDispatch c matched) : EvalM σ Node).run.run m
      = (.ok (.fixed (freshDispatch m.store c matched)),
        ⟨demanding m.store (m.store.callable c).wantsCaller, m.host⟩) := rfl

/-- **A call that adds a link gets what it would get without.** -/
theorem specialize_transparent (hc : m.store.InHand c) (hs : m.store.Served i owner) {id : NodeId}
    {depth : Nat} (hn : (m.store.site i).nodes[id.index]? = some (.vacant depth)) :
    Transparent getters i caller c m ((specialize getters i id depth caller c).run.run m) := by
  have hgather := gather_run getters caller c hs.standard
  rw [specialize_eq, EvalM.run_store_bind]
  dsimp only
  rw [EvalM.run_ofExcept_bind]
  cases hchecked : Arguments.checkNames (m.store.site i).args with
  | error e =>
      rw [hchecked] at hgather
      exact transparent_of_error hgather (.refl i m) hs
  | ok _ =>
      dsimp only
      by_cases hdepth : depth ≥ (m.store.site i).limits.functionDepth
      · rw [if_pos hdepth]
        exact runLastly_transparent (.of_alike (.refl i m)) hs.bodies hs hn
          fun _ => Or.inl ⟨trivial, trivial⟩
      rw [if_neg hdepth]
      cases hforwards : Arguments.forwardsVariadic (m.store.site i).args with
      | true =>
          rw [if_pos rfl, pure_bind]
          exact linkShapes_transparent hc hs hn hchecked hforwards _
      | false =>
          have hstatic := gather_run_static getters caller c hs.standard hchecked hforwards
          rw [if_neg Bool.false_ne_true, EvalM.run_bind, hs.standard, EvalM.run_onCall,
            Store.runMatcher_standard]
          cases hmatch : m.store.matchStandard c (Arguments.staticNames (m.store.site i).args) false with
          | error e =>
              have hanew : m.store.matchStandard c _ true = .error e := Matching.run_error hmatch true
              rw [hanew] at hstatic
              exact transparent_of_error hstatic (.refl i m) hs
          | ok matched =>
              dsimp only
              rw [EvalM.run_bind, newFixed_run]
              exact linkFixed_transparent hc hs hn hchecked hforwards hmatch _

end Chain

end ScopeCall
