import ScopeCall.Proofs.Caching
import ScopeCall.Proofs.Placing
import ScopeCall.Script.Expression

/-!
# `ScopeCall.Proofs.Delivering` — a callee receives exactly the matched arguments

A call names its arguments, matches the names, evaluates the arguments, places the values at formals and binds
them in slots. Here the steps are put together: whatever a call site has cached, a body that gets control finds
under each formal the argument that the rules of matching place there, or the default, or nothing.

## Contents
- **Asking.** `EvalM.argument` and `EvalM.intrinsicArgument`: what a body asks for, with active bindings run.
- **Supplying.** `Chain.Supplies`: a call gathers what it supplies (`Chain.gather_of_supplies`), and nothing
  else (`Chain.supplies_of_gather`).
- **Entering.** `Chain.execute_ok`: where a call is when it has come to a body.
- **Delivering.** `FormalSource.Answers`, and `Chain.execute_delivers`.
-/

namespace ScopeCall

variable {σ : Type}

/-! ## Asking -/

namespace EvalM

/-- The argument for a formal, as the body of a closure gets it. -/
def argument (getters : Getters σ) (inv : Invocation) (n : Name) : EvalM σ Value := do
  force getters (← ofExcept ((← store).argument inv n))

/-- The argument for the formal at a position, as the body of an intrinsic gets it. -/
def intrinsicArgument (getters : Getters σ) (call : IntrinsicCall) (i : Nat) : EvalM σ Value := do
  force getters (← ofExcept ((← store).intrinsicArgument call i))

/-- An argument that is there is forced; one that is not is missing. -/
theorem argument_run (getters : Getters σ) (inv : Invocation) (n : Name) (m : Machine σ) :
    (argument getters inv n).run.run m = match m.store.readName inv.activation n with
      | some v => (force getters v).run.run m
      | none   => (.error (.missingArgument (m.store.spell n)), m) := by
  unfold argument Store.argument
  rw [run_store_bind, run_ofExcept_bind]
  cases m.store.readName inv.activation n <;> rfl

theorem intrinsicArgument_run (getters : Getters σ) (call : IntrinsicCall) (i : Nat) (m : Machine σ)
    {f : Formal} (hf : (m.store.callable call.callable).formals[i]? = some f) :
    (intrinsicArgument getters call i).run.run m = match call.args[i]?.join with
      | some v => (force getters v).run.run m
      | none   => (.error (.missingArgument (m.store.spell f.name)), m) := by
  unfold intrinsicArgument Store.intrinsicArgument
  rw [run_store_bind, run_ofExcept_bind, hf]
  cases call.args[i]?.join <;> rfl

end EvalM

/-- An expression of a script asks for arguments just so. -/
theorem Script.forceArgument_run (s : Store) (session : Script.Session) (r : Except EvalError Value) :
    (Script.forceArgument s r).run.run (s.heap, session)
      = match (EvalM.ofExcept r >>= EvalM.force (Script.runGetter s.interner)).run.run ⟨s, session⟩ with
        | (.ok v, m)    => (.ok v, (m.store.heap, m.host))
        | (.error e, m) => (.error (.error e), (m.store.heap, m.host)) := by
  rw [EvalM.run_ofExcept_bind]
  rcases r with e | v
  · rfl
  · cases v <;> rfl

/-! ## Supplying -/

/-- The names of the arguments as written are among those with the forwards spliced in. -/
theorem Arguments.mem_flattenedNames {args : Arguments} {n : Option Name} (h : n ∈ args.staticNames)
    (groups : List (List GroupEntry)) : n ∈ args.flattenedNames groups := by
  induction args generalizing groups with
  | nil => cases h
  | cons spec rest ih =>
      unfold staticNames at h ih
      unfold flattenedNames
      by_cases hforward : spec.isForward = true
      · rw [List.filter_cons, hforward] at h
        rw [if_pos hforward]
        cases groups with
        | nil => exact ih h []
        | cons group groups => exact List.mem_append_right _ (ih h groups)
      · rw [Bool.not_eq_true] at hforward
        rw [List.filter_cons, hforward] at h
        rw [if_neg (by rw [hforward]; exact Bool.false_ne_true)]
        rcases List.mem_cons.1 h with rfl | h
        · exact List.mem_cons_self
        · exact List.mem_cons_of_mem _ (ih h groups)

theorem Arguments.checkNames_ok {args : Arguments} {groups : List (List GroupEntry)}
    (h : some Name.empty ∉ args.flattenedNames groups) : args.checkNames = .ok () := by
  unfold checkNames
  rw [if_neg]
  rw [List.contains_iff_mem]
  exact fun hmem => h (mem_flattenedNames hmem groups)

namespace Chain

variable {getters : Getters σ} {i : SiteId} {caller : ActivationId} {c : CallableId} {m m' m₁ : Machine σ}

/-- The arguments that a call site supplies from a caller: their names, with what is forwarded spliced in, and
    the values that they evaluate to. -/
def Supplies (getters : Getters σ) (i : SiteId) (caller : ActivationId) (m : Machine σ)
    (names : SuppliedNames) (values : List Value) : Prop :=
  ∃ groups m₁, Arguments.readGroups (m.store.site i).args m.store caller = .ok groups
    ∧ names = Arguments.flattenedNames (m.store.site i).args (Arguments.entriesOf m.store groups)
    ∧ (Arguments.evaluate getters caller (m.store.site i).args
        (Arguments.entriesOf m.store groups)).run.run (holding m groups) = (.ok values, m₁)

theorem Supplies.length {names : SuppliedNames} {values : List Value}
    (h : Supplies getters i caller m names values) : values.length = names.length := by
  obtain ⟨groups, m₁, -, rfl, hvalues⟩ := h
  exact Arguments.evaluate_length hvalues

/-- The machine after the arguments of a call have been bound to formals. -/
def bindingAt (m : Machine σ) (matched : MatchedArguments) (formals : List Formal) (names : SuppliedNames)
    (values : List Value) : Machine σ :=
  { m with store := { m.store with heap := ((matched.bind formals names values).run m.store.heap).2 } }

/-- **A call that supplies arguments gathers them**, if their names match, and fails as matching does
    otherwise. -/
theorem gather_of_supplies {names : SuppliedNames} {values : List Value} {R : Store → Store → Prop}
    (hsteady : EvalM.Steady getters R) (hstandard : (m.store.site i).matcher = .standard) (hempty : some Name.empty ∉ names)
    (h : Supplies getters i caller m names values) :
    match m.store.matchStandard c names true with
    | .error e    => ((gather getters i caller c).run.run m).1 = .error e
    | .ok matched => ∃ m₁ : Machine σ, R m.store m₁.store
        ∧ (gather getters i caller c).run.run m
          = (.ok ((matched.bind (m.store.callable c).formals names values).run m₁.store.heap).1,
            bindingAt m₁ matched (m.store.callable c).formals names values) := by
  obtain ⟨groups, m₁, hgroups, hnames, hvalues⟩ := h
  rw [gather_run getters caller c hstandard, hgroups, Arguments.checkNames_ok (hnames ▸ hempty)]
  dsimp only
  rw [← hnames]
  cases hmatch : m.store.matchStandard c names true with
  | error e => rfl
  | ok matched =>
      have hheld : R m.store (holding m groups).store := hsteady.hold m.store _
      have hwithin := hsteady.within_evaluate caller (m.store.site i).args
        (Arguments.entriesOf m.store groups) (holding m groups)
      have hlooks := (EvalM.steady_looks getters).within_evaluate caller (m.store.site i).args
        (Arguments.entriesOf m.store groups) (holding m groups)
      rw [hvalues] at hwithin hlooks
      refine ⟨m₁, hsteady.trans hheld hwithin, ?_⟩
      -- Evaluation leaves functions as they are, so the formals are those that were matched.
      have hformals : (m₁.store.callable c).formals = (m.store.callable c).formals := by
        unfold Store.callable
        rw [hlooks.rest]
        rfl
      unfold collect
      dsimp only
      rw [EvalM.run_bind, hvalues, ← hformals]
      rfl

/-- A call that gathers its arguments supplies them, and their names match. -/
theorem supplies_of_gather (hstandard : (m.store.site i).matcher = .standard) {bound : List (Option Value)}
    (h : (gather getters i caller c).run.run m = (.ok bound, m₁)) :
    ∃ names values matched, Supplies getters i caller m names values ∧ some Name.empty ∉ names
      ∧ m.store.matchStandard c names true = .ok matched := by
  rw [gather_run getters caller c hstandard] at h
  cases hchecked : Arguments.checkNames (m.store.site i).args with
  | error e =>
      rw [hchecked] at h
      cases h
  | ok _ =>
      rw [hchecked] at h
      cases hgroups : Arguments.readGroups (m.store.site i).args m.store caller with
      | error e =>
          rw [hgroups] at h
          cases h
      | ok groups =>
          rw [hgroups] at h
          dsimp only at h
          cases hmatch : m.store.matchStandard c (Arguments.flattenedNames (m.store.site i).args
              (Arguments.entriesOf m.store groups)) true with
          | error e =>
              rw [hmatch] at h
              cases h
          | ok matched =>
              rw [hmatch] at h
              obtain ⟨values, m₂, hvalues, -⟩ := EvalM.run_bind_ok h
              exact ⟨_, values, matched, ⟨groups, m₂, hgroups, rfl, hvalues⟩,
                (Matching.distinct_of_run hmatch).1, hmatch⟩

/-- **A call that gathers its arguments** supplies them, matches their names, and gives each formal what its
    source says. -/
theorem gather_ok (hstandard : (m.store.site i).matcher = .standard) {bound : List (Option Value)}
    (h : (gather getters i caller c).run.run m = (.ok bound, m₁)) :
    ∃ names values matched, Supplies getters i caller m names values
      ∧ Matching.Follows (m.store.callable c).formals names matched
      ∧ List.Forall₂ (fun p r => p.2.Gives m₁.store.heap names values p.1 r)
        ((m.store.callable c).formals.zip matched.sources) bound
      ∧ m.store.Looks m₁.store := by
  obtain ⟨names, values, matched, hsupplies, hempty, hmatch⟩ := supplies_of_gather hstandard h
  have hgather := gather_of_supplies (c := c) (EvalM.steady_looks getters) hstandard hempty hsupplies
  rw [hmatch] at hgather
  obtain ⟨m₂, hlooks, hgather⟩ := hgather
  obtain ⟨hbound, rfl⟩ := Prod.mk.inj (h.symm.trans hgather)
  obtain rfl := Except.ok.inj hbound
  have hfollows := Matching.follows_of_run hmatch
  exact ⟨names, values, matched, hsupplies, hfollows,
    MatchedArguments.bind_gives hfollows hsupplies.length m₂.store.heap,
    hlooks.trans ⟨rfl, rfl, fun _ => rfl⟩⟩

/-! ## Entering -/

/-- Where a call is when it has come to a body: a closure has got a scope with what was bound to its formals, an
    intrinsic has got it directly. -/
def Arrives (s s' : Store) (caller : ActivationId) (c : CallableId) (bound : List (Option Value))
    (entry : Entry) : Prop :=
  match (s.callable c).kind with
  | .intrinsic body        => entry = .intrinsic body { callable := c, caller, args := bound }
  | .closure l enclosing _ => ∃ target inv, entry = .closure target inv ∧ inv.callable = c
      ∧ inv.caller.origin = caller
      ∧ s.Enters s' caller l enclosing ((s.callable c).formals.zip bound) inv.activation

/-- **However a call is cached**, when it has come to a body it has supplied its arguments, matched them by the
    rules, and given each formal what its source says. -/
theorem execute_ok (hserves : m.store.Serves i) (hc : m.store.InHand c) {entry : Entry}
    (h : (execute getters i caller c).run.run m = (.ok entry, m')) :
    ∃ names values matched bound, Supplies getters i caller m names values
      ∧ Matching.Follows (m.store.callable c).formals names matched
      ∧ List.Forall₂ (fun p r => p.2.Gives m'.store.heap names values p.1 r)
        ((m.store.callable c).formals.zip matched.sources) bound
      ∧ Arrives m.store m'.store caller c bound entry
      ∧ (m'.store.callable c).formals = (m.store.callable c).formals := by
  obtain ⟨owner, hserved⟩ := hserves
  have htransparent := transparent_of_served getters caller hc hserved
  rw [h] at htransparent
  unfold Transparent at htransparent
  generalize hgather : (gather getters i caller c).run.run m = gathered at htransparent
  rcases gathered with ⟨e | bound, m₁⟩
  · cases htransparent.1
  -- The call gathers as one that matches anew, and then invokes the function in a machine like that one.
  obtain ⟨target, demand, m₂, halike, -, -, hresult⟩ := htransparent
  obtain ⟨names, values, matched, hsupplies, hfollows, hgives, hlooks⟩ := gather_ok hserved.standard hgather
  have hcallable₁ : m₁.store.callable c = m.store.callable c := by
    unfold Store.callable
    rw [hlooks.rest]
  have hcallable₂ := halike.store.callable c
  rw [hcallable₁] at hcallable₂
  have hkind : (m₂.store.callable c).kind = (m.store.callable c).kind := by rw [hcallable₂]
  have hformals : (m₂.store.callable c).formals = (m.store.callable c).formals := by rw [hcallable₂]
  have hscopes := hlooks.sameScopes.trans halike.store.sameScopes
  have hheap : m₂.store.heap = m₁.store.heap := halike.store.part Store.heap fun _ _ => rfl
  rw [EvalM.run_onCall] at hresult
  generalize hinvoke : (Store.invoke (m.store.site i).maxDepth caller c target bound demand).run.run m₂.store
    = invoked at hresult
  rcases invoked with ⟨r, s₂⟩
  obtain ⟨rfl, rfl⟩ := Prod.mk.inj hresult
  have hmade : (m₂.store.callables.size) = m.store.callables.size := by
    rw [halike.store.callables, hlooks.rest]
  have hformals' : (s₂.callable c).formals = (m.store.callable c).formals := by
    have hkeeps := Store.meanwhile_invoke i (m.store.site i).maxDepth caller c target bound demand m₂.store
    rw [hinvoke] at hkeeps
    rw [hkeeps.callable c (Nat.lt_of_lt_of_eq hc.made hmade.symm), hformals]
  -- Entering a scope makes no group, so what formals were given they still have.
  suffices harrives : s₂.heap = m₂.store.heap ∧ Arrives m.store s₂ caller c bound entry by
    refine ⟨names, values, matched, bound, hsupplies, hfollows, ?_, harrives.2, hformals'⟩
    rw [harrives.1, hheap]
    exact hgives
  unfold Arrives
  cases hk : (m.store.callable c).kind with
  | intrinsic body =>
      rw [Store.invoke_intrinsic_run (hkind.trans hk)] at hinvoke
      obtain ⟨hentry, rfl⟩ := Prod.mk.inj hinvoke
      exact ⟨rfl, (Except.ok.inj hentry).symm⟩
  | closure l enclosing shared =>
      obtain ⟨-, inv, hentry, hcallee, horigin, henters, hsame⟩ :=
        Store.invoke_closure_ok (hkind.trans hk) hinvoke
      rw [hformals] at henters
      refine ⟨hsame, _, inv, hentry, hcallee, horigin, henters.of_same hscopes.activations ?_ ?_⟩
      · rw [halike.store.part Store.nextSerial fun _ _ => rfl, hlooks.rest]
      · rw [halike.store.part Store.interner fun _ _ => rfl, hlooks.rest]

end Chain

/-! ## Delivering -/

/-- What asking for the argument of a formal comes to, by the source of the formal: the value supplied at a
    position, a group of the values left over, the default, or an error that names the formal. -/
def FormalSource.Answers (getters : Getters σ) (names : SuppliedNames) (values : List Value) (f : Formal)
    (ask : EvalM σ Value) (m : Machine σ) : FormalSource → Prop
  | .supplied i   => ∃ v, values[i]? = some v ∧ ask.run.run m = (EvalM.force getters v).run.run m
  | .collected is => ∃ g, m.store.heap.Holds g names values is ∧ ask.run.run m = (.ok (.group g), m)
  | .defaulted    => ∃ v, f.default? = some v ∧ ask.run.run m = (EvalM.force getters v).run.run m
  | .missing      => f.default? = none ∧ ask.run.run m = (.error (.missingArgument (m.store.spell f.name)), m)

/-- What a formal was given is what asking for it answers. -/
theorem FormalSource.Gives.answers {getters : Getters σ} {names : SuppliedNames} {values : List Value}
    {f : Formal} {source : FormalSource} {r : Option Value} {ask : EvalM σ Value} {m : Machine σ}
    (hask : ask.run.run m = match r with
      | some v => (EvalM.force getters v).run.run m
      | none   => (.error (.missingArgument (m.store.spell f.name)), m))
    (h : source.Gives m.store.heap names values f r) :
    source.Answers getters names values f ask m := by
  cases source with
  | supplied i =>
      obtain ⟨v, hv, rfl⟩ := h
      exact ⟨v, hv, hask⟩
  | collected is =>
      obtain ⟨g, hg, rfl⟩ := h
      exact ⟨g, hg, hask⟩
  | defaulted =>
      obtain ⟨v, hv, rfl⟩ := h
      exact ⟨v, hv, hask⟩
  | missing =>
      obtain ⟨hdefault, rfl⟩ := h
      exact ⟨hdefault, hask⟩

namespace Chain

variable {getters : Getters σ} {i : SiteId} {caller : ActivationId} {c : CallableId} {m m' : Machine σ}

/-- What the body of a closure finds when it gets control, where its formals have the sources `sources`. -/
structure FindsScope (getters : Getters σ) (names : SuppliedNames) (values : List Value)
    (formals : List Formal) (sources : List FormalSource) (caller : ActivationId) (c : CallableId)
    (l : LayoutId) (enclosing : ActivationId) (inv : Invocation) (m m' : Machine σ) : Prop where
  /-- Each formal answers as its source says, whatever the scopes around bind. -/
  arguments : ∀ (k : Nat) (f : Formal) (source : FormalSource), formals[k]? = some f →
    sources[k]? = some source →
    source.Answers getters names values f (EvalM.argument getters inv f.name) m'
  /-- Where leftover arguments are collected, all of them are there, in the order of the call. -/
  leftovers : formals.any Formal.isVariadic = true → ∃ g, m'.store.leftovers inv = some g
    ∧ m'.store.heap.Holds g names values (Matching.unplaced formals names)
  noLeftovers : formals.any Formal.isVariadic = false → m'.store.leftovers inv = none
  /-- Nothing is bound but formals for which something was found. -/
  onlyFormals : ∀ slot, m'.store.content inv.activation slot ≠ .empty →
    ∃ (k : Nat) (f : Formal) (source : FormalSource), formals[k]? = some f ∧ sources[k]? = some source
      ∧ source ≠ .missing ∧ m'.store.slotOf? inv.activation f.name = some slot
  fresh : ¬ m.store.Allocated (.activation inv.activation)
  layout : m'.store.layoutOf inv.activation = l
  enclosing : (m'.store.activation inv.activation).enclosing = some enclosing
  depth : (m'.store.activation inv.activation).depth
    = min ((m.store.activation caller).depth + 1) Store.depthLimit
  callable : inv.callable = c
  origin : inv.caller.origin = caller

/-- What the body of an intrinsic finds when it gets control. -/
structure FindsArguments (getters : Getters σ) (names : SuppliedNames) (values : List Value)
    (formals : List Formal) (sources : List FormalSource) (caller : ActivationId) (c : CallableId)
    (call : IntrinsicCall) (m' : Machine σ) : Prop where
  /-- Each formal answers as its source says. -/
  arguments : ∀ (k : Nat) (f : Formal) (source : FormalSource), formals[k]? = some f →
    sources[k]? = some source →
    source.Answers getters names values f (EvalM.intrinsicArgument getters call k) m'
  length : call.args.length = formals.length
  callable : call.callable = c
  caller : call.caller = caller

section Finding

variable {names : SuppliedNames} {values : List Value} {matched : MatchedArguments}
  {bound : List (Option Value)}

/-- What the formal at a position has been given. -/
theorem exists_given {formals : List Formal} {h : Heap} (hgives : List.Forall₂ (fun p r =>
      p.2.Gives h names values p.1 r) (formals.zip matched.sources) bound) {k : Nat} {f : Formal}
    {source : FormalSource} (hf : formals[k]? = some f) (hsource : matched.sources[k]? = some source) :
    ∃ r, bound[k]? = some r ∧ source.Gives h names values f r := by
  obtain ⟨hlength, hget⟩ := List.forall₂_iff_get.1 hgives
  have hzip : (formals.zip matched.sources)[k]? = some (f, source) := List.getElem?_zip_eq_some.2 ⟨hf, hsource⟩
  obtain ⟨hk, hpair⟩ := List.getElem?_eq_some_iff.1 hzip
  have hk' : k < bound.length := hlength ▸ hk
  have hgiven := hget k hk hk'
  rw [List.get_eq_getElem, List.get_eq_getElem, hpair] at hgiven
  exact ⟨bound[k], List.getElem?_eq_getElem hk', hgiven⟩

theorem length_bound {formals : List Formal} {h : Heap} (hfollows : Matching.Follows formals names matched)
    (hgives : List.Forall₂ (fun p r => p.2.Gives h names values p.1 r) (formals.zip matched.sources) bound) :
    bound.length = formals.length := by
  rw [← hgives.length_eq, List.length_zip, hfollows.length, Nat.min_self]

/-- **The body of a closure finds what was given to its formals.** -/
theorem findsScope_of_enters {formals : List Formal} {l : LayoutId} {enclosing : ActivationId}
    {inv : Invocation} (hdistinct : (formals.map Formal.name).Nodup)
    (hfollows : Matching.Follows formals names matched)
    (hgives : List.Forall₂ (fun p r => p.2.Gives m'.store.heap names values p.1 r)
      (formals.zip matched.sources) bound)
    (henters : m.store.Enters m'.store caller l enclosing (formals.zip bound) inv.activation)
    (hcallable : inv.callable = c) (horigin : inv.caller.origin = caller) :
    FindsScope getters names values formals matched.sources caller c l enclosing inv m m' := by
  have hnames : (formals.zip bound).map (·.1.name) = formals.map Formal.name := by
    have hfst : (formals.zip bound).map Prod.fst = formals :=
      List.map_fst_zip (length_bound hfollows hgives).ge
    rw [← congrArg (List.map Formal.name) hfst, List.map_map]
    rfl
  -- Each formal reads what was bound for it, since no other has its name.
  have hreads : ∀ {k : Nat} {f : Formal} {source : FormalSource}, formals[k]? = some f →
      matched.sources[k]? = some source →
      source.Gives m'.store.heap names values f (m'.store.readName inv.activation f.name) := by
    intro k f source hf hsource
    obtain ⟨r, hr, hgiven⟩ := exists_given hgives hf hsource
    have hzip : (formals.zip bound)[k]? = some (f, r) := List.getElem?_zip_eq_some.2 ⟨hf, hr⟩
    have hmem := List.mem_of_getElem? hzip
    rwa [henters.readName (hnames ▸ hdistinct) hmem]
  obtain ⟨contents, hscope⟩ := henters.scope
  constructor
  case arguments =>
    intro k f source hf hsource
    exact (hreads hf hsource).answers (EvalM.argument_run getters inv f.name m')
  case leftovers =>
    intro hany
    obtain ⟨f, hmem, hvariadic⟩ := List.any_eq_true.1 hany
    obtain ⟨k, hk⟩ := Option.isSome_iff_exists.1
      (List.findIdx?_isSome.trans (List.any_eq_true.2 ⟨f, hmem, hvariadic⟩))
    obtain ⟨hlt, hhere, -⟩ := List.findIdx?_eq_some_iff_getElem.1 hk
    obtain ⟨g, hholds, hread⟩ := hreads (List.getElem?_eq_getElem hlt) (hfollows.collects k hk)
    have hname : formals[k].name = .variadic := by simpa [Formal.isVariadic, Name.isVariadic] using hhere
    refine ⟨g, ?_, hholds⟩
    unfold Store.leftovers
    rw [← hname, hread]
    rfl
  case noLeftovers =>
    intro hany
    unfold Store.leftovers
    rw [henters.readName_of_forall_ne]
    · rfl
    · intro f r hf hname
      refine Bool.eq_false_iff.1 hany (List.any_eq_true.2 ⟨f, (List.of_mem_zip hf).1, ?_⟩)
      unfold Formal.isVariadic
      rw [hname]
      rfl
  case onlyFormals =>
    intro slot hslot
    obtain ⟨f, v, hf, hslotf⟩ := (henters.free slot).resolve_left hslot
    obtain ⟨k, hk⟩ := List.mem_iff_getElem?.1 hf
    obtain ⟨hfk, hr⟩ := List.getElem?_zip_eq_some.1 hk
    obtain ⟨source, hsource, -⟩ := hfollows.fits hfk
    refine ⟨k, f, source, hfk, hsource, ?_, hslotf⟩
    rintro rfl
    obtain ⟨r, hr', -, rfl⟩ := exists_given hgives hfk hsource
    cases hr.symm.trans hr'
  case fresh =>
    rw [henters.fresh]
    exact Nat.lt_irrefl _
  case layout =>
    unfold Store.layoutOf
    rw [hscope]
  case enclosing => rw [hscope]
  case depth =>
    rw [hscope]
    rfl
  case callable => exact hcallable
  case origin => exact horigin

/-- **The body of an intrinsic finds what was given to its formals.** -/
theorem findsArguments_of_gives {formals : List Formal}
    (hfollows : Matching.Follows formals names matched)
    (hgives : List.Forall₂ (fun p r => p.2.Gives m'.store.heap names values p.1 r)
      (formals.zip matched.sources) bound)
    (hformals : (m'.store.callable c).formals = formals) :
    FindsArguments getters names values formals matched.sources caller c
      { callable := c, caller, args := bound } m' where
  arguments k f source hf hsource := by
    obtain ⟨r, hr, hgiven⟩ := exists_given hgives hf hsource
    refine hgiven.answers ?_
    rw [EvalM.intrinsicArgument_run getters _ k m' (hformals ▸ hf), hr]
    rfl
  length := length_bound hfollows hgives
  callable := rfl
  caller := rfl

end Finding

/-- **A callee receives exactly the matched arguments.** -/
theorem execute_delivers {m₀ : Machine σ} (h : m₀.store.Uncalled i)
    (hrun : Relation.ReflTransGen (CallStep i) m₀ m) (hc : m.store.InHand c)
    (hdistinct : (m.store.callable c).isIntrinsic = false →
      ((m.store.callable c).formals.map Formal.name).Nodup) {entry : Entry}
    (hentry : (execute getters i caller c).run.run m = (.ok entry, m')) :
    ∃ names values matched, Supplies getters i caller m names values
      ∧ values.length = names.length
      ∧ Matching.Follows (m.store.callable c).formals names matched
      ∧ match (m.store.callable c).kind with
        | .closure l enclosing _ => ∃ target inv, entry = .closure target inv
            ∧ FindsScope getters names values (m.store.callable c).formals matched.sources caller c l
                enclosing inv m m'
        | .intrinsic body => ∃ call, entry = .intrinsic body call
            ∧ FindsArguments getters names values (m.store.callable c).formals matched.sources caller c
                call m' := by
  obtain ⟨names, values, matched, bound, hsupplies, hfollows, hgives, harrives, hformals⟩ :=
    execute_ok (serves_of_run h hrun) hc hentry
  refine ⟨names, values, matched, hsupplies, hsupplies.length, hfollows, ?_⟩
  unfold Arrives at harrives
  cases hk : (m.store.callable c).kind with
  | intrinsic body =>
      rw [hk] at harrives
      exact ⟨_, harrives, findsArguments_of_gives hfollows hgives hformals⟩
  | closure l enclosing shared =>
      rw [hk] at harrives
      obtain ⟨target, inv, hclosure, hcallable, horigin, henters⟩ := harrives
      have hclosed : (m.store.callable c).isIntrinsic = false := by
        unfold Callable.isIntrinsic
        rw [hk]
      exact ⟨target, inv, hclosure,
        findsScope_of_enters (hdistinct hclosed) hfollows hgives henters hcallable horigin⟩

/-- A store with a scope at some depth, a function `f(x, y = 5, ..., z)` that closes over it, and a site that
    calls the function as `f(1, w = 2)`. -/
def deepSite (depth maxDepth : Nat) : Store :=
  { Store.new ["f", "x", "y", "z", "w"] with
    guards := Array.replicate 4 ⟨"", true⟩
    layouts := #[
      { label := "g", kind := .function, policy := {}, noActiveBinding := ⟨0⟩, enclosingGuard := ⟨1⟩ },
      { label := "f", kind := .function, policy := {}, noActiveBinding := ⟨2⟩, enclosingGuard := ⟨3⟩
        enclosing := some ⟨0⟩ }]
    activations := #[{ serial := 1, layout := ⟨0⟩, depth, enclosing := none }]
    nextSerial := 2
    callables := #[
      { name := ⟨2⟩, label := "f"
        formals := [{ name := ⟨3⟩ }, { name := ⟨4⟩, default? := some (.int 5) }, .variadic, { name := ⟨5⟩ }]
        wantsCaller := false, wantsDedicatedCopy := false, kind := .closure ⟨1⟩ ⟨0⟩ ⟨0⟩ }]
    targets := #[{ body := ⟨0⟩, dedicated := false }]
    sites := #[
      { callee := .value (.function ⟨0⟩)
        args := [{ expr := .const (.int 1) }, { name := some ⟨6⟩, expr := .const (.int 2) }]
        maxDepth }]
    handles := [.callable ⟨0⟩, .activation ⟨0⟩] }

theorem deepSite_uncalled (depth maxDepth : Nat) : (deepSite depth maxDepth).Uncalled ⟨0⟩ := by
  refine ⟨Nat.one_pos, rfl, rfl, fun c t ht => ?_⟩
  rcases c with ⟨_ | k⟩
  · obtain rfl := Option.some.inj ht
    exact Nat.one_pos
  · have hnone : (deepSite depth maxDepth).callable ⟨k + 1⟩ = default := rfl
    rw [hnone] at ht
    cases ht

theorem deepSite_inHand (depth maxDepth : Nat) : (deepSite depth maxDepth).InHand ⟨0⟩ :=
  ⟨Nat.one_pos, List.mem_cons_self⟩

theorem deepSite_distinct (depth maxDepth : Nat) :
    (((deepSite depth maxDepth).callable ⟨0⟩).formals.map Formal.name).Nodup := by
  show [_, _, _, _].Nodup
  decide

/-- The body of `f(x, y = 5, ..., z)` finds what the call `f(1, w = 2)` supplies, through a site that has not
    been called through. -/
theorem delivers_of_call : (deepSite 0 10).Uncalled ⟨0⟩ ∧ (deepSite 0 10).InHand ⟨0⟩
    ∧ (((deepSite 0 10).callable ⟨0⟩).formals.map Formal.name).Nodup
    ∧ ∃ inv m', (execute zeroGetters ⟨0⟩ ⟨0⟩ ⟨0⟩).run.run ⟨deepSite 0 10, ()⟩ = (.ok (.closure ⟨0⟩ inv), m')
      ∧ ∃ names values matched, Supplies zeroGetters ⟨0⟩ ⟨0⟩ ⟨deepSite 0 10, ()⟩ names values
        ∧ FindsScope zeroGetters names values ((deepSite 0 10).callable ⟨0⟩).formals
            (MatchedArguments.sources matched) ⟨0⟩ ⟨0⟩ ⟨1⟩ ⟨0⟩ inv ⟨deepSite 0 10, ()⟩ m' := by
  refine ⟨deepSite_uncalled 0 10, deepSite_inHand 0 10, deepSite_distinct 0 10, ?_⟩
  have hentry : ((execute zeroGetters ⟨0⟩ ⟨0⟩ ⟨0⟩).run.run ⟨deepSite 0 10, ()⟩).1
      = .ok (.closure ⟨0⟩ ⟨⟨0⟩, ⟨1⟩, .elided ⟨0⟩ ⟨0⟩⟩) := by
    decide +kernel
  generalize hcall : (execute zeroGetters ⟨0⟩ ⟨0⟩ ⟨0⟩).run.run ⟨deepSite 0 10, ()⟩ = result at hentry
  rcases result with ⟨r, m'⟩
  obtain rfl : r = _ := hentry
  obtain ⟨names, values, matched, hsupplies, -, -, target, inv, hclosure, hfinds⟩ :=
    execute_delivers (deepSite_uncalled 0 10) .refl (deepSite_inHand 0 10)
      (fun _ => deepSite_distinct 0 10) hcall
  cases hclosure
  exact ⟨_, m', rfl, names, values, matched, hsupplies, hfinds⟩

/-- A call from the greatest depth that can be represented does not go deeper. -/
theorem deepest_call_stays : (deepSite Store.depthLimit Store.depthLimit).Uncalled ⟨0⟩
    ∧ (deepSite Store.depthLimit Store.depthLimit).InHand ⟨0⟩
    ∧ (((deepSite Store.depthLimit Store.depthLimit).callable ⟨0⟩).formals.map Formal.name).Nodup
    ∧ ∃ target inv m', (execute zeroGetters ⟨0⟩ ⟨0⟩ ⟨0⟩).run.run
        ⟨deepSite Store.depthLimit Store.depthLimit, ()⟩ = (.ok (.closure target inv), m')
      ∧ (m'.store.activation inv.activation).depth
        ≠ ((deepSite Store.depthLimit Store.depthLimit).activation ⟨0⟩).depth + 1 := by
  refine ⟨deepSite_uncalled _ _, deepSite_inHand _ _, deepSite_distinct _ _, ⟨0⟩,
    ⟨⟨0⟩, ⟨1⟩, .elided ⟨0⟩ ⟨0⟩⟩, ?_⟩
  have hcall : ((execute zeroGetters ⟨0⟩ ⟨0⟩ ⟨0⟩).run.run
        ⟨deepSite Store.depthLimit Store.depthLimit, ()⟩).1
        = .ok (.closure ⟨0⟩ ⟨⟨0⟩, ⟨1⟩, .elided ⟨0⟩ ⟨0⟩⟩)
      ∧ (((execute zeroGetters ⟨0⟩ ⟨0⟩ ⟨0⟩).run.run
        ⟨deepSite Store.depthLimit Store.depthLimit, ()⟩).2.store.activation ⟨1⟩).depth = Store.depthLimit := by
    decide +kernel
  generalize (execute zeroGetters ⟨0⟩ ⟨0⟩ ⟨0⟩).run.run _ = result at hcall ⊢
  rcases result with ⟨r, m'⟩
  obtain ⟨rfl, hdepth⟩ : r = _ ∧ _ := hcall
  refine ⟨m', rfl, ?_⟩
  rw [hdepth]
  exact Nat.ne_of_lt (Nat.lt_succ_self _)

end Chain

end ScopeCall
