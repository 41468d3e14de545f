import ScopeCall.Proofs.Chaining
import ScopeCall.Proofs.Wrapping

/-!
# `ScopeCall.Proofs.Forwarding` — forwarding through wrappers

A wrapper passes on what it was called with: it collects its arguments, and a call site in its body forwards
them. What one wrapper's site supplies is what the call of the wrapper supplied, so through any number of
wrappers, one inside the other, the innermost call comes to what a direct call with the same arguments comes
to: the same error of matching, or the same values for the formals of the function.

## Contents
- **Calls on.** `Chain.callThrough`: a call of a wrapper that calls a wrapper, and so on.
- **Wrappers.** `Store.Wraps`, and `Chain.CallsOn`.
- **The innermost call.** `Chain.callThrough_reaches`, by induction over the wrappers.
- **Transparency.** `Chain.forwarding_transparent`.
-/

namespace ScopeCall

variable {σ : Type}

namespace Chain

/-! ## Calls on -/

/-- Calls a function through a site. Where sites follow, the function is a wrapper: all that its body does is
    to call through the first of them from its own scope. -/
def callThrough (getters : Getters σ) : SiteId → ActivationId → CallableId → List SiteId → EvalM σ Entry
  | i, caller, c, [] => execute getters i caller c
  | i, caller, c, j :: sites => do
    match ← execute getters i caller c with
    | .closure _ inv =>
      let next ← calleeOf getters j inv.activation
      callThrough getters j inv.activation next sites
    | entry => return entry

variable {getters : Getters σ} {i j : SiteId} {caller a : ActivationId} {c f : CallableId}
  {m m' m₁ : Machine σ} {names : SuppliedNames} {values : List Value}

theorem functionOf_held {v : Value} (h : (functionOf getters v).run.run m = (.ok c, m')) :
    .callable c ∈ m'.store.roots := by
  unfold functionOf at h
  obtain ⟨v', m₁, -, h⟩ := EvalM.run_bind_ok h
  cases v' with
  | function c' =>
      obtain ⟨hc, rfl⟩ := Prod.mk.inj h
      obtain rfl := Except.ok.inj hc
      exact List.mem_append_left _ (List.mem_append_left _ List.mem_cons_self)
  | _ => cases h

/-- What a call site is about to call is held. -/
theorem calleeOf_held (h : (calleeOf getters i caller).run.run m = (.ok c, m')) :
    .callable c ∈ m'.store.roots := by
  unfold calleeOf at h
  rw [EvalM.run_store_bind] at h
  cases hcallee : (m.store.site i).callee with
  | read cache =>
      rw [hcallee] at h
      obtain ⟨v, m₁, -, h⟩ := EvalM.run_bind_ok h
      exact functionOf_held h
  | value v =>
      rw [hcallee] at h
      exact functionOf_held h

/-- A wrapper around nothing but a call calls through its site. -/
theorem callThrough_single (getters : Getters σ) (i : SiteId) (caller : ActivationId) (c : CallableId)
    (j : SiteId) : callThrough getters i caller c [j] = (do
      match ← execute getters i caller c with
      | .closure _ inv => executeSite getters j inv.activation
      | entry => return entry) := by
  unfold callThrough
  refine congrArg (execute getters i caller c >>= ·) (funext fun entry => ?_)
  cases entry with
  | closure target inv => exact (executeSite_eq getters j inv.activation).symm
  | intrinsic body call => rfl

end Chain

/-! ## Wrappers -/

/-- A wrapper and the call site in its body: the one formal collects, and the one argument of the site forwards
    what has been collected. -/
structure Store.Wraps (s : Store) (w : CallableId) (j : SiteId) : Prop where
  made : s.Allocated (.callable w)
  collects : ∃ f, (s.callable w).formals = [f] ∧ f.isVariadic = true
  admits : ∃ l enclosing shared, (s.callable w).kind = .closure l enclosing shared ∧ s.Admits l enclosing
  forwards : ∃ spec, (s.site j).args = [spec] ∧ spec.isForward = true

theorem Store.Wraps.proceeds {s s' : Store} {w : CallableId} {j : SiteId} (h : s.Wraps w j)
    (hs : s.Proceeds s') : s'.Wraps w j := by
  have hcallable := hs.callable w h.made
  obtain ⟨l, enclosing, shared, hkind, hadmits⟩ := h.admits
  refine ⟨Nat.lt_of_lt_of_le h.made hs.callables, ?_, ⟨l, enclosing, shared, ?_, hadmits.proceeds hs⟩, ?_⟩
  · rw [hcallable]
    exact h.collects
  · rw [hcallable]
    exact hkind
  · rw [hs.site]
    exact h.forwards

namespace Chain

variable {getters : Getters σ} {i j : SiteId} {caller a : ActivationId} {c f : CallableId}
  {m m' m₁ : Machine σ} {names : SuppliedNames} {values : List Value}

/-- The function that is called first: the outermost wrapper, or the function itself if it is not wrapped. -/
def outermost (nest : List (CallableId × SiteId)) (f : CallableId) : CallableId :=
  (nest.head?.map Prod.fst).getD f

/-- The site that calls the function itself. -/
def innermost (i : SiteId) (nest : List (CallableId × SiteId)) : SiteId := (nest.map Prod.snd).getLastD i

/-- The site of each wrapper calls the next wrapper, and the last one calls `f`. -/
def CallsOn (getters : Getters σ) (f : CallableId) :
    SiteId → ActivationId → Machine σ → List (CallableId × SiteId) → Prop
  | _, _, _, [] => True
  | i, caller, m, (w, j) :: nest => ∀ target inv m₁,
      (execute getters i caller w).run.run m = (.ok (.closure target inv), m₁) →
      ∃ m₂, (calleeOf getters j inv.activation).run.run m₁ = (.ok (outermost nest f), m₂)
        ∧ CallsOn getters f j inv.activation m₂ nest

/-- A call leaves a site what it is but for its nodes, however it ends. -/
theorem site_execute (getters : Getters σ) (hi : m.store.Allocated (.site i)) (caller : ActivationId) (c : CallableId)
    (k : SiteId) :
    ((execute getters i caller c).run.run m).2.store.site k
        = { m.store.site k with nodes := (((execute getters i caller c).run.run m).2.store.site k).nodes }
      ∧ m.store.sites.size ≤ ((execute getters i caller c).run.run m).2.store.sites.size := by
  by_cases hk : i = k
  · subst hk
    have hevolves := evolves_execute getters hi rfl rfl caller c
    exact ⟨hevolves.site, hevolves.sites⟩
  · have hmeanwhile := leavesSite_execute hk getters caller c m
    refine ⟨?_, hmeanwhile.sites⟩
    rw [hmeanwhile.site]

/-- **Sites that are made to call one function each** call on, whatever happens between. -/
theorem callsOn_of_values {nest : List (CallableId × SiteId)}
    (hsites : ∀ k ∈ i :: nest.map Prod.snd, m.store.Allocated (.site k))
    (hcallees : ∀ k w j, nest[k]? = some (w, j) →
      (m.store.site j).callee = .value (.function (outermost (nest.drop (k + 1)) f))) :
    CallsOn getters f i caller m nest := by
  induction nest generalizing i caller m with
  | nil => trivial
  | cons p nest ih =>
      obtain ⟨w, j⟩ := p
      intro target inv m₁ hrun
      have hsite := fun k => site_execute getters (hsites i List.mem_cons_self) caller w k
      rw [hrun] at hsite
      have hcallee : ∀ k, (m₁.store.site k).callee = (m.store.site k).callee := fun k => by
        rw [(hsite k).1]
      have hnext : (calleeOf getters j inv.activation).run.run m₁ = (.ok (outermost nest f),
          { m₁ with store := m₁.store.hold [.callable (outermost nest f)] }) := by
        unfold calleeOf
        rw [EvalM.run_store_bind, hcallee, hcallees 0 w j rfl]
        rfl
      refine ⟨_, hnext, ih (fun k hk => ?_) fun k w' j' hk => ?_⟩
      · exact Nat.lt_of_lt_of_le (hsites k (List.mem_cons_of_mem i hk)) (hsite k).2
      · exact (hcallee j').trans (hcallees (k + 1) w' j' hk)

/-! ## The innermost call -/

/-- **A call of a wrapper comes to the next call**, which supplies what the call of the wrapper supplied. -/
theorem callThrough_cons (hkeep : EvalM.KeepGroups getters) {w : CallableId}
    {nest : List (CallableId × SiteId)} (hserves : m.store.Serves i) (hwraps : m.store.Wraps w j)
    (hheld : .callable w ∈ m.store.roots) (hdepth : (m.store.activation caller).depth + 1 ≤ (m.store.site i).maxDepth)
    (hempty : some Name.empty ∉ names) (hsupplies : Supplies getters i caller m names values)
    (hcalls : CallsOn getters f i caller m ((w, j) :: nest)) :
    ∃ a m', (callThrough getters i caller w (j :: nest.map Prod.snd)).run.run m
        = (callThrough getters j a (outermost nest f) (nest.map Prod.snd)).run.run m'
      ∧ Supplies getters j a m' names values ∧ m.store.Proceeds m'.store
      ∧ .callable (outermost nest f) ∈ m'.store.roots
      ∧ (m'.store.activation a).depth ≤ (m.store.activation caller).depth + 1
      ∧ CallsOn getters f j a m' nest := by
  obtain ⟨g, hformals, hg⟩ := hwraps.collects
  obtain ⟨l, enclosing, shared, hkind, hadmits⟩ := hwraps.admits
  have hcallee : m.store.calleeDepth caller ≤ (m.store.activation caller).depth + 1 := Nat.min_le_left _ _
  obtain ⟨target, inv, m₁, hexecute, hproceeds, hallocated, hdeeper, hcollected⟩ :=
    execute_collects hkeep hserves ⟨hwraps.made, hheld⟩ hformals hg hkind hadmits (hcallee.trans hdepth) hempty
      hsupplies
  obtain ⟨m₂, hnext, hrest⟩ := hcalls target inv m₁ hexecute
  -- Finding the next function does no more than evaluation does.
  have hsteady := (EvalM.steady_looks getters).and hkeep.steady
  obtain ⟨hlooks, hgroups⟩ : m₁.store.Looks m₂.store ∧ m₁.store.heap.Extends m₂.store.heap := by
    have hwithin := calleeOf_within hsteady j inv.activation m₁
    rwa [hnext] at hwithin
  have hproceeds₂ := Store.Proceeds.of_looks hlooks hgroups
  have hall := hproceeds.trans hproceeds₂
  obtain ⟨spec, hargs, hforward⟩ := (hwraps.proceeds hall).forwards
  refine ⟨inv.activation, m₂, ?_, ?_, hall, calleeOf_held hnext, ?_, hrest⟩
  · rw [callThrough, EvalM.run_bind, hexecute]
    dsimp only
    rw [EvalM.run_bind, hnext]
  · exact supplies_of_collected hargs hforward (hcollected.of_looks hlooks hgroups)
  · rw [hproceeds₂.activation _ hallocated, hdeeper]
    exact hcallee

/-- **Through any number of wrappers, the innermost call supplies what the outermost supplies.** -/
theorem callThrough_reaches (hkeep : EvalM.KeepGroups getters) {nest : List (CallableId × SiteId)}
    (hserves : ∀ k ∈ i :: nest.map Prod.snd, m.store.Serves k)
    (hwraps : ∀ p ∈ nest, m.store.Wraps p.1 p.2) (hf : m.store.Allocated (.callable f))
    (hheld : .callable (outermost nest f) ∈ m.store.roots)
    (hdepth : ∀ k < nest.length, ∀ j, (i :: nest.map Prod.snd)[k]? = some j →
      (m.store.activation caller).depth + k + 1 ≤ (m.store.site j).maxDepth)
    (hempty : some Name.empty ∉ names) (hsupplies : Supplies getters i caller m names values)
    (hcalls : CallsOn getters f i caller m nest) :
    ∃ a m', (callThrough getters i caller (outermost nest f) (nest.map Prod.snd)).run.run m
        = (execute getters (innermost i nest) a f).run.run m'
      ∧ Supplies getters (innermost i nest) a m' names values ∧ m'.store.InHand f
      ∧ m'.store.Serves (innermost i nest) ∧ m.store.Proceeds m'.store := by
  -- The invariant: the site at hand supplies the same names and values, and there is room for the wrappers left.
  induction nest generalizing i caller m with
  | nil => exact ⟨caller, m, rfl, hsupplies, ⟨hf, hheld⟩, hserves i List.mem_cons_self, .refl m.store⟩
  | cons p nest ih =>
      obtain ⟨w, j⟩ := p
      obtain ⟨a, m₁, hrun, hsupplies₁, hproceeds, hheld₁, hdeeper, hrest⟩ := callThrough_cons hkeep
        (hserves i List.mem_cons_self) (hwraps _ List.mem_cons_self) hheld
        (hdepth 0 (Nat.succ_pos _) i rfl) hempty hsupplies hcalls
      have hdepth₁ : ∀ k < nest.length, ∀ j', (j :: nest.map Prod.snd)[k]? = some j' →
          (m₁.store.activation a).depth + k + 1 ≤ (m₁.store.site j').maxDepth := by
        intro k hk j' hj'
        have hlimit := hdepth (k + 1) (Nat.succ_lt_succ hk) j' hj'
        rw [hproceeds.site]
        show _ ≤ (m.store.site j').maxDepth
        omega
      obtain ⟨b, m₂, hinner, hsupplies₂, hf₂, hserves₂, hproceeds₂⟩ := ih
        (fun k hk => hproceeds.serves k (hserves k (List.mem_cons_of_mem i hk)))
        (fun p hp => (hwraps p (List.mem_cons_of_mem _ hp)).proceeds hproceeds)
        (Nat.lt_of_lt_of_le hf hproceeds.callables) hheld₁ hdepth₁ hsupplies₁ hrest
      have hlast : innermost i ((w, j) :: nest) = innermost j nest := List.getLastD_cons
      rw [hlast]
      exact ⟨b, m₂, hrun.trans hinner, hsupplies₂, hf₂, hserves₂, hproceeds.trans hproceeds₂⟩

/-! ## Transparency -/

/-- **What a call comes to depends on the arguments that it supplies**, and not on how it comes to supply
    them: it fails as matching does, or gives control to the function with these values. -/
theorem execute_of_supplies (hserves : m.store.Serves i) (hc : m.store.InHand c)
    (hempty : some Name.empty ∉ names) (hsupplies : Supplies getters i caller m names values) :
    match m.store.matchStandard c names true with
    | .error e    => ((execute getters i caller c).run.run m).1 = .error e
    | .ok matched => ∃ (h : Heap) (m₁ : Machine σ) (target : Option TargetId) (demand : CallerDemand),
        m₁.store.heap = ((matched.bind (m.store.callable c).formals names values).run h).2
        ∧ (execute getters i caller c).run.run m = (EvalM.onCall (Store.invoke (m.store.site i).maxDepth caller
            c target ((matched.bind (m.store.callable c).formals names values).run h).1 demand)).run.run m₁ := by
  obtain ⟨owner, hserved⟩ := hserves
  have htransparent := transparent_of_served getters caller hc hserved
  have hgather := gather_of_supplies (c := c) (EvalM.steady_looks getters) hserved.standard hempty hsupplies
  unfold Transparent at htransparent
  cases hmatch : m.store.matchStandard c names true with
  | error e =>
      rw [hmatch] at hgather
      dsimp only at hgather ⊢
      generalize (gather getters i caller c).run.run m = gathered at htransparent hgather
      rcases gathered with ⟨r, m₁⟩
      obtain rfl : r = .error e := hgather
      exact htransparent.1
  | ok matched =>
      rw [hmatch] at hgather
      obtain ⟨m₁, -, hgather⟩ := hgather
      rw [hgather] at htransparent
      obtain ⟨target, demand, m₂, halike, -, -, hresult⟩ := htransparent
      exact ⟨m₁.store.heap, m₂, target, demand, halike.store.part Store.heap fun _ _ => rfl, hresult⟩

/-- A call site as it is some time after it was made, whatever calls through it have left there. -/
def Reached (i : SiteId) (m : Machine σ) : Prop :=
  ∃ m₀ : Machine σ, m₀.store.Uncalled i ∧ Relation.ReflTransGen (CallStep i) m₀ m

/-- **Forwarding through wrappers is transparent.** Where a site calls the outermost of some wrappers, and each
    of these does no more than to forward what it collects, the innermost call supplies the names and the
    values that the first call supplies. So it comes to what a direct call comes to that supplies the same: if
    these names do not match the formals of the function, both calls end in the error of matching; otherwise
    both give control to the function, with the same values for its formals. It does not matter what has been
    cached at any of the sites, nor what their limits are. -/
theorem forwarding_transparent (hkeep : EvalM.KeepGroups getters) {nest : List (CallableId × SiteId)}
    {d : SiteId} {b : ActivationId} (hreached : ∀ k ∈ d :: i :: nest.map Prod.snd, Reached k m)
    (hwraps : ∀ p ∈ nest, m.store.Wraps p.1 p.2) (hf : m.store.InHand f)
    (hheld : m.store.InHand (outermost nest f))
    (hdepth : ∀ k < nest.length, ∀ j, (i :: nest.map Prod.snd)[k]? = some j →
      (m.store.activation caller).depth + k + 1 ≤ (m.store.site j).maxDepth)
    (hcalls : CallsOn getters f i caller m nest) (hempty : some Name.empty ∉ names)
    (hsupplies : Supplies getters i caller m names values) (hdirect : Supplies getters d b m names values) :
    ∃ a m', (callThrough getters i caller (outermost nest f) (nest.map Prod.snd)).run.run m
        = (execute getters (innermost i nest) a f).run.run m'
      ∧ Supplies getters (innermost i nest) a m' names values
      ∧ match m.store.matchStandard f names true with
        | .error e => ((execute getters (innermost i nest) a f).run.run m').1 = .error e
            ∧ ((execute getters d b f).run.run m).1 = .error e
        | .ok _ => ∃ bound bound' target target' demand demand' m₁ m₂,
            (execute getters (innermost i nest) a f).run.run m' = (EvalM.onCall (Store.invoke
              (m.store.site (innermost i nest)).maxDepth a f target bound demand)).run.run m₁
            ∧ (execute getters d b f).run.run m = (EvalM.onCall (Store.invoke
              (m.store.site d).maxDepth b f target' bound' demand')).run.run m₂
            ∧ List.Forall₂ (Heap.SameArgument (Machine.store m₁).heap (Machine.store m₂).heap) bound bound' := by
  have hserves : ∀ k ∈ d :: i :: nest.map Prod.snd, m.store.Serves k := by
    intro k hk
    obtain ⟨m₀, huncalled, hrun⟩ := hreached k hk
    exact serves_of_run huncalled hrun
  obtain ⟨a, m', hinner, hsupplies', hf', hserves', hproceeds⟩ := callThrough_reaches hkeep
    (fun k hk => hserves k (List.mem_cons_of_mem d hk)) hwraps hf.made hheld.held hdepth hempty hsupplies hcalls
  refine ⟨a, m', hinner, hsupplies', ?_⟩
  -- The innermost call and the direct one supply the same, so they match and bind the same.
  have hnested := execute_of_supplies hserves' hf' hempty hsupplies'
  have hplain := execute_of_supplies (hserves d List.mem_cons_self) hf hempty hdirect
  have hformals : (m'.store.callable f).formals = (m.store.callable f).formals := by
    rw [hproceeds.callable f hf.made]
  have hmax : (m'.store.site (innermost i nest)).maxDepth = (m.store.site (innermost i nest)).maxDepth := by
    rw [hproceeds.site]
  rw [hproceeds.matchStandard hf.made, hformals, hmax] at hnested
  cases hmatch : m.store.matchStandard f names true with
  | error e =>
      rw [hmatch] at hnested hplain
      exact ⟨hnested, hplain⟩
  | ok matched =>
      rw [hmatch] at hnested hplain
      obtain ⟨h, m₁, target, demand, hheap, hresult⟩ := hnested
      obtain ⟨h', m₂, target', demand', hheap', hresult'⟩ := hplain
      refine ⟨_, _, target, target', demand, demand', m₁, m₂, hresult, hresult', ?_⟩
      rw [hheap, hheap']
      exact MatchedArguments.bind_same matched _ names values h h'

/-- A store with a function `f(x, y = 5, ..., z)`, a wrapper `g` that calls `h(...)`, and a wrapper `h` that
    calls `f(...)`; and with sites for the calls `g(1, w = 2, x = 3)`, `h(...)`, `f(...)` and, directly,
    `f(1, w = 2, x = 3)`. -/
def twoWrappers : Store :=
  { Store.new ["f", "x", "y", "z", "w", "g", "h"] with
    guards := Array.replicate 8 ⟨"", true⟩
    layouts := #[
      { label := "global", kind := .function, policy := {}, noActiveBinding := ⟨0⟩, enclosingGuard := ⟨1⟩ },
      { label := "f", kind := .function, policy := {}, noActiveBinding := ⟨2⟩, enclosingGuard := ⟨3⟩
        enclosing := some ⟨0⟩ },
      { label := "g", kind := .function, policy := {}, noActiveBinding := ⟨4⟩, enclosingGuard := ⟨5⟩
        enclosing := some ⟨0⟩ },
      { label := "h", kind := .function, policy := {}, noActiveBinding := ⟨6⟩, enclosingGuard := ⟨7⟩
        enclosing := some ⟨0⟩ }]
    activations := #[{ serial := 1, layout := ⟨0⟩, depth := 0, enclosing := none }]
    nextSerial := 2
    callables := #[
      { name := ⟨2⟩, label := "f"
        formals := [{ name := ⟨3⟩ }, { name := ⟨4⟩, default? := some (.int 5) }, .variadic, { name := ⟨5⟩ }]
        wantsCaller := false, wantsDedicatedCopy := false, kind := .closure ⟨1⟩ ⟨0⟩ ⟨0⟩ },
      { name := ⟨7⟩, label := "g", formals := [.variadic]
        wantsCaller := false, wantsDedicatedCopy := false, kind := .closure ⟨2⟩ ⟨0⟩ ⟨1⟩ },
      { name := ⟨8⟩, label := "h", formals := [.variadic]
        wantsCaller := false, wantsDedicatedCopy := false, kind := .closure ⟨3⟩ ⟨0⟩ ⟨2⟩ }]
    targets := #[{ body := ⟨0⟩, dedicated := false }, { body := ⟨1⟩, dedicated := false },
      { body := ⟨2⟩, dedicated := false }]
    sites := #[
      { callee := .value (.function ⟨1⟩), args := writtenArguments },
      { callee := .value (.function ⟨2⟩), args := [{ expr := .forward }] },
      { callee := .value (.function ⟨0⟩), args := [{ expr := .forward }] },
      { callee := .value (.function ⟨0⟩), args := writtenArguments }]
    handles := [.callable ⟨0⟩, .callable ⟨1⟩, .activation ⟨0⟩] }
where
  writtenArguments : Arguments := [{ expr := .const (.int 1) }, { name := some ⟨6⟩, expr := .const (.int 2) },
    { name := some ⟨3⟩, expr := .const (.int 3) }]

/-- The wrappers `g` and `h`, with the sites in their bodies. -/
def twoNest : List (CallableId × SiteId) := [(⟨1⟩, ⟨1⟩), (⟨2⟩, ⟨2⟩)]

theorem twoWrappers_reached (k : Nat) (hk : k < 4) : Reached ⟨k⟩ (⟨twoWrappers, ()⟩ : Machine Unit) := by
  refine ⟨⟨twoWrappers, ()⟩, ⟨hk, ?_, ?_, fun c t ht => ?_⟩, .refl⟩
  · rcases k with _ | _ | _ | _ | k
    · rfl
    · rfl
    · rfl
    · rfl
    · omega
  · rcases k with _ | _ | _ | _ | k
    · rfl
    · rfl
    · rfl
    · rfl
    · omega
  · rcases c with ⟨_ | _ | _ | n⟩
    · obtain rfl := Option.some.inj ht
      decide
    · obtain rfl := Option.some.inj ht
      decide
    · obtain rfl := Option.some.inj ht
      decide
    · have hnone : twoWrappers.callable ⟨n + 3⟩ = default := rfl
      rw [hnone] at ht
      cases ht

theorem twoWrappers_wraps : ∀ p ∈ twoNest, twoWrappers.Wraps p.1 p.2 := by
  have hg : twoWrappers.Wraps ⟨1⟩ ⟨1⟩ :=
    ⟨by decide, ⟨_, rfl, rfl⟩, ⟨⟨2⟩, ⟨0⟩, ⟨1⟩, rfl, by decide, by decide, rfl, rfl⟩, _, rfl, rfl⟩
  have hh : twoWrappers.Wraps ⟨2⟩ ⟨2⟩ :=
    ⟨by decide, ⟨_, rfl, rfl⟩, ⟨⟨3⟩, ⟨0⟩, ⟨2⟩, rfl, by decide, by decide, rfl, rfl⟩, _, rfl, rfl⟩
  intro p hp
  rcases List.mem_cons.1 hp with rfl | hp
  · exact hg
  · obtain rfl := List.mem_singleton.1 hp
    exact hh

theorem twoWrappers_callsOn :
    CallsOn zeroGetters ⟨0⟩ ⟨0⟩ ⟨0⟩ (⟨twoWrappers, ()⟩ : Machine Unit) twoNest := by
  refine callsOn_of_values (fun k hk => ?_) fun k w j hk => ?_
  · have hall : ∀ k ∈ ⟨0⟩ :: twoNest.map Prod.snd, SiteId.index k < 4 := by decide
    exact hall k hk
  · rcases k with _ | _ | k
    · obtain ⟨rfl, rfl⟩ := Prod.mk.inj (Option.some.inj hk)
      rfl
    · obtain ⟨rfl, rfl⟩ := Prod.mk.inj (Option.some.inj hk)
      rfl
    · cases hk

theorem twoWrappers_supplies {k : Nat} (hk : k = 0 ∨ k = 3) :
    Supplies zeroGetters ⟨k⟩ ⟨0⟩ (⟨twoWrappers, ()⟩ : Machine Unit) [none, some ⟨6⟩, some ⟨3⟩]
      [.int 1, .int 2, .int 3] := by
  rcases hk with rfl | rfl <;> exact ⟨[], _, rfl, rfl, rfl⟩

/-- Through two wrappers `f` gets what it gets from the call `f(1, w = 2, x = 3)`. -/
theorem transparent_through_two : (∀ p ∈ twoNest, twoWrappers.Wraps p.1 p.2)
    ∧ CallsOn zeroGetters ⟨0⟩ ⟨0⟩ ⟨0⟩ (⟨twoWrappers, ()⟩ : Machine Unit) twoNest
    ∧ ∃ a m' bound bound' target target' demand demand' m₁ m₂,
      (callThrough zeroGetters ⟨0⟩ ⟨0⟩ ⟨1⟩ [⟨1⟩, ⟨2⟩]).run.run ⟨twoWrappers, ()⟩
          = (execute zeroGetters ⟨2⟩ a ⟨0⟩).run.run m'
        ∧ Supplies zeroGetters ⟨2⟩ a m' [none, some ⟨6⟩, some ⟨3⟩] [.int 1, .int 2, .int 3]
        ∧ (execute zeroGetters ⟨2⟩ a ⟨0⟩).run.run m'
          = (EvalM.onCall (Store.invoke defaultMaxDepth a ⟨0⟩ target bound demand)).run.run m₁
        ∧ (execute zeroGetters ⟨3⟩ ⟨0⟩ ⟨0⟩).run.run ⟨twoWrappers, ()⟩
          = (EvalM.onCall (Store.invoke defaultMaxDepth ⟨0⟩ ⟨0⟩ target' bound' demand')).run.run m₂
        ∧ List.Forall₂ (Heap.SameArgument (Machine.store m₁).heap (Machine.store m₂).heap) bound bound' := by
  refine ⟨twoWrappers_wraps, twoWrappers_callsOn, ?_⟩
  have hkeep : EvalM.KeepGroups zeroGetters := fun _ h _ => .refl h
  have hreached : ∀ k ∈ ⟨3⟩ :: ⟨0⟩ :: twoNest.map Prod.snd, Reached k (⟨twoWrappers, ()⟩ : Machine Unit) := by
    have hall : ∀ k ∈ ⟨3⟩ :: ⟨0⟩ :: twoNest.map Prod.snd, SiteId.index k < 4 := by decide
    exact fun k hk => twoWrappers_reached k.index (hall k hk)
  have hf : twoWrappers.InHand ⟨0⟩ := ⟨by decide, by decide⟩
  have hg : twoWrappers.InHand (outermost twoNest ⟨0⟩) := ⟨by decide, by decide⟩
  have hdepth : ∀ k < twoNest.length, ∀ j, (⟨0⟩ :: twoNest.map Prod.snd)[k]? = some j →
      (twoWrappers.activation ⟨0⟩).depth + k + 1 ≤ (twoWrappers.site j).maxDepth := by
    intro k hk j hj
    rcases k with _ | _ | k
    · obtain rfl := Option.some.inj hj
      decide
    · obtain rfl := Option.some.inj hj
      decide
    · have htwo : twoNest.length = 2 := rfl
      omega
  have hempty : some Name.empty ∉ [none, some ⟨6⟩, some ⟨3⟩] := by decide
  obtain ⟨a, m', hinner, hsupplies, hmatch⟩ := forwarding_transparent hkeep hreached twoWrappers_wraps hf hg
    hdepth twoWrappers_callsOn hempty (twoWrappers_supplies (Or.inl rfl)) (twoWrappers_supplies (Or.inr rfl))
  have hok : (twoWrappers.matchStandard ⟨0⟩ [none, some ⟨6⟩, some ⟨3⟩] true).isOk = true := by decide +kernel
  cases hcase : twoWrappers.matchStandard ⟨0⟩ [none, some ⟨6⟩, some ⟨3⟩] true with
  | error e =>
      rw [hcase] at hok
      cases hok
  | ok matched =>
      rw [hcase] at hmatch
      obtain ⟨bound, bound', target, target', demand, demand', m₁, m₂, hnested, hplain, hsame⟩ := hmatch
      exact ⟨a, m', bound, bound', target, target', demand, demand', m₁, m₂, hinner, hsupplies, hnested, hplain,
        hsame⟩

end Chain

end ScopeCall
