import ScopeCall.Proofs.Sharing

/-!
# `ScopeCall.Proofs.Discovering` — what a fresh walk finds

A walk decides from what layouts say what the dynamic walk decides from what is stored. When it ends, its result is
read at once as the dynamic walk would answer, or as saying nothing where the slot that it found is empty, whatever
has been done to the scopes before. Where the scopes are not nested as their layouts are, it ends only if it has come
to a binding on the way there.

## Contents
- **Results.** `resultValid_remembering`: what a walk leaves behind may be trusted.
- **Bindings.** `live_of_walk_boundAt`: the activation that a walk found is alive as long as the one it came from.
- **Divergence.** `Store.Strays`, and `walk_of_strays`.
- **Fresh walks.** `fresh_walk_is_dynamic`.
-/

namespace ScopeCall

namespace Store

variable {s s₁ : Store} {a b : ActivationId} {n : Name} {l : LayoutId} {f : Finding} {path : List ActivationId}

/-! ## Results -/

/-- The guard of a new result is valid: the one that is replaced has an older guard. -/
theorem lookupValid_remembering (hs : s.Sound) (ho : s.Orderly) (ha : s.Live (.activation a))
    {fuel : Nat} (hw : s.walk n fuel a = some (f, path)) :
    (s.remembering a n f path).lookupValid ⟨s.lookups.size⟩ = true := by
  have hl := (ha.layoutOf hs.wellFormed).allocated hs.wellFormed
  have hstart : a ∈ path := mem_path_of_walk hw
  unfold remembering
  dsimp only
  generalize "lookup " ++ n.debug ++ " from " ++ (s.layout (s.layoutOf a)).label = label
  obtain ⟨heq, -⟩ := (s.addLookup label).recordWalk_eq n path
  have hrecorded := ((s.addLookup label).mem_recordWalk n n path (s.layoutOf a)).2 (Or.inr ⟨rfl, hl, a, hstart, rfl⟩)
  have hmemo := part_recordWalk (Layout.memo? · n) (fun _ _ => rfl) (s.addLookup label) n path (s.layoutOf a)
  have hmemoizes := memoizes_memoize hrecorded (f.toResult ⟨s.lookups.size⟩)
  generalize (s.addLookup label).recordWalk n path = s₁ at heq hmemo hmemoizes ⊢
  apply (hmemoizes.valid _).2
  constructor
  · rw [heq]
    show (s.addLookup label).lookupValid ⟨s.lookups.size⟩ = true
    simp [lookupValid_addLookup]
  · intro q hq hsame
    rw [hmemo] at hq
    have hold := ho.memoGuards _ n q hq
    rw [← hsame] at hold
    exact absurd hold (Nat.lt_irrefl _)

/-- **What a walk leaves behind may be trusted.** -/
theorem resultValid_remembering (hs : s.Sound) (ho : s.Orderly) (ha : s.Live (.activation a))
    {fuel : Nat} (hw : s.walk n fuel a = some (f, path)) :
    (s.remembering a n f path).resultValid (f.toResult ⟨s.lookups.size⟩) = true := by
  have hstables := (learns_remembering hs ha hw).stables
  rw [resultValid_eq, LookupResult.guard_toResult, LookupResult.finding_toResult, Bool.and_eq_true]
  constructor
  · exact lookupValid_remembering hs ho ha hw
  · -- A token that the walk found is valid, and looking up invalidates none.
    have hfinding := findingValid_of_walk hs hw
    unfold findingValid stableValid stable at hfinding ⊢
    rwa [hstables]

/-! ## Bindings -/

/-- **The activation that a walk found is alive** in each store with the same scopes in which the one that it came
    from is alive. -/
theorem live_of_walk_boundAt (hs : s.Sound) (ho : s.Orderly) (ha : s.Live (.activation a)) {fuel i : Nat}
    (hw : s.walk n fuel a = some (.boundAt b i, path)) (hs₁ : s₁.WellFormed) (hsame : s₁.activations = s.activations)
    (ha₁ : s₁.Live (.activation a)) : s₁.Live (.activation b) := by
  replace hw := walks_of_walk hw
  -- The walk goes along enclosing activations, and ends at one of them.
  generalize hf : Finding.boundAt b i = f at hw
  induction hw with
  | stop hstop =>
      subst hf
      rw [stopAt_eq_view hs ho.claimed ha n] at hstop
      obtain ⟨rfl, -⟩ := readName_of_boundAt hs ho.claimed ha hstop
      exact ha₁
  | root => simp at hf
  | up _ _ hnext _ ih =>
      have hnext₁ := hnext
      rw [activation, ← hsame, ← activation] at hnext₁
      exact ih (ha.enclosing hs.wellFormed hnext) (ha₁.enclosing hs₁ hnext₁) hf

/-! ## Divergence -/

/-- A slot of the layout binds the name in a way that a walk can end with: it is tracked and has a value, or it is
    not tracked and the layout admits one activation. -/
def BindsAt (s : Store) (l : LayoutId) (n : Name) : Prop :=
  ∃ i, (s.layout l).slotIndex? n = some i
    ∧ ((∃ t, s.token l i = some t ∧ (s.stable t).value ≠ none)
      ∨ s.token l i = none ∧ (s.layout l).kind.isSingleton = true)

/-- On the way out from an activation, the scopes are somewhere not nested as their layouts are, and no layout up to
    there binds the name. -/
inductive Strays (s : Store) (n : Name) : ActivationId → Prop where
  | here {a : ActivationId} (h : ¬ s.BindsAt (s.layoutOf a) n)
      (hparts : (s.layout (s.layoutOf a)).enclosing ≠ (s.activation a).enclosing.map s.layoutOf) : Strays s n a
  | up {a e : ActivationId} (h : ¬ s.BindsAt (s.layoutOf a) n) (hnext : (s.activation a).enclosing = some e)
      (hrest : Strays s n e) : Strays s n a

theorem binds_of_stopAt (ho : s.Orderly) (h : s.stopAt l n = .found f) : s.BindsAt l n := by
  unfold stopAt at h
  split at h
  · simp at h
  · rename_i i hslot
    refine ⟨i, hslot, ?_⟩
    have htoken : (s.slot? l i).bind (·.stable) = s.token l i := rfl
    rw [htoken] at h
    split at h
    · rename_i t ht
      split at h
      · rename_i hsome
        exact Or.inl ⟨t, ht, Option.isSome_iff_ne_none.1 hsome⟩
      · simp at h
    · rename_i ht
      split at h
      · rename_i c hc
        obtain ⟨d, hd, -⟩ := Option.bind_eq_some_iff.1 hc
        exact Or.inr ⟨ht, ho.claimed l d hd⟩
      · simp at h

/-- **A walk that strays gives up.** -/
theorem walk_of_strays (ho : s.Orderly) (h : s.Strays n a) (fuel : Nat) : s.walk n fuel a = none := by
  rw [← Option.not_isSome_iff_eq_none, Option.isSome_iff_exists]
  rintro ⟨⟨f, path⟩, hw⟩
  replace hw := walks_of_walk hw
  induction h generalizing fuel path with
  | here hbinds hparts =>
      cases hw with
      | stop hstop => exact hbinds (binds_of_stopAt ho hstop)
      | root _ halong hnext =>
          apply hparts
          rw [halong, hnext]
          rfl
      | up _ halong hnext _ =>
          apply hparts
          rw [halong, hnext]
          rfl
  | up hbinds hnext _ ih =>
      cases hw with
      | stop hstop => exact hbinds (binds_of_stopAt ho hstop)
      | root _ _ hnone => simp [hnext] at hnone
      | up _ _ hsame hrest =>
          obtain rfl := Option.some.inj (hnext.symm.trans hsame)
          exact ih _ _ hrest

theorem Strays.acquire (h : s.Strays n a) (rs : List Ref) : (s.acquire rs).Strays n a := by
  induction h with
  | here hbinds hparts => exact .here hbinds hparts
  | up hbinds hnext _ ih => exact .up hbinds hnext ih

/-! ## Fresh walks -/

/-- Nothing that may be trusted is remembered for a name where the lookup starts. -/
def Forgotten (s : Store) (a : ActivationId) (n : Name) : Prop :=
  ∀ r, (s.layout (s.layoutOf a)).memo? n = some r → s.resultValid r = false

instance (s : Store) (a : ActivationId) (n : Name) : Decidable (s.Forgotten a n) :=
  decidable_of_iff (((s.layout (s.layoutOf a)).memo? n).all (fun r => !s.resultValid r) = true) (by
    simp [Forgotten, Option.all_eq_true])

theorem resolve_of_forgotten (h : s.Forgotten a n) : (resolve a n).run s = (resolveAnew a n).run s := by
  rw [resolve_run]
  split
  · rename_i r hr
    simp [h r hr]
  · rfl

/-- What a new result says at once, and what that tells about the dynamic walk. -/
theorem reads_remembering (hs : s.Sound) (ho : s.Orderly) (ha : Ref.activation a ∈ s.roots) {fuel : Nat}
    (hw : s.walk n fuel a = some (f, path)) (hspares : s.Spares (s.remembering a n f path)) :
    ((s.remembering a n f path).readResult (f.toResult ⟨s.lookups.size⟩)).Agrees (s.lookupFrom n fuel (some a))
      ∧ ((s.remembering a n f path).readResult (f.toResult ⟨s.lookups.size⟩) = .noInformation →
        ∃ b i, f = .boundAt b i ∧ (s.remembering a n f path).Live (.activation b)
          ∧ (s.remembering a n f path).read b i = none) := by
  have hlive := live_of_mem_roots ha
  have hlearns := learns_remembering hs hlive hw
  have hvalid := resultValid_remembering hs ho hlive hw
  have hsays := says_of_walk hs ho hlive hw
  have hs₁ := hspares.leads.wellFormed hs.wellFormed
  have hheld : (s.remembering a n f path).Live (.activation a) := by
    apply live_of_mem_roots
    rwa [hspares.held]
  have hfound : ∀ b i, f = .boundAt b i → (s.remembering a n f path).Live (.activation b) := by
    rintro b i rfl
    exact live_of_walk_boundAt hs ho hlive hw hs₁ hlearns.scopes.activations hheld
  generalize s.remembering a n f path = s₁ at *
  have hstable : s₁.stable = s.stable := by
    unfold stable
    rw [hlearns.stables]
  have hsays₁ := hsays.same hlearns.scopes hstable
  constructor
  · apply agrees_readResult
    rwa [LookupResult.finding_toResult]
  · intro hread
    unfold readResult at hread
    rw [if_pos hvalid] at hread
    cases f with
    | stable t =>
        -- A tracked slot ends a walk only if it has a value.
        obtain ⟨hvalue, hsome⟩ := hsays₁
        rw [hvalue] at hsome
        obtain ⟨v, hv⟩ := Option.isSome_iff_exists.1 hsome
        simp [Finding.toResult, hv, Resolved.ofOption] at hread
    | boundAt b i =>
        have hb := hfound b i rfl
        have hup := (isLive_iff hs₁ (hb.allocated hs₁)).2 hb
        refine ⟨b, i, rfl, hb, ?_⟩
        cases hvalue : s₁.read b i with
        | none => rfl
        | some v => simp [Finding.toResult, upgradeActivation, hup, hvalue, Resolved.ofOption] at hread
    | unbound => simp [Finding.toResult] at hread

/-- **A fresh walk is dynamic**, whatever has been done to the scopes before. In a store that a program can come to,
    let an activation alive be taken up, and a name be resolved from it for which nothing that may be trusted is
    remembered. What is answered then, and read at once, is a value only if the dynamic walk finds that value; it says
    that the name is unbound only if the dynamic walk finds nothing; and it says nothing only if a slot has been found
    in an activation alive that is empty. And nothing is answered if the scopes stray from their layouts before a
    layout that binds the name. -/
theorem fresh_walk_is_dynamic (h : Reachable s) (ha : s.Live (.activation a))
    (hforgotten : (s.acquire [.activation a]).Forgotten a n) :
    let s₁ := ((resolve a n).run (s.acquire [.activation a])).2
    (∀ r, ((resolve a n).run (s.acquire [.activation a])).1 = some r →
      (∀ v, s₁.readResult r = .value v → s.lookupDynamic a n = some v)
      ∧ (s₁.readResult r = .unbound → s.lookupDynamic a n = none)
      ∧ (s₁.readResult r = .noInformation →
        ∃ b i g, r = .boundAt b i g ∧ s₁.Live (.activation b) ∧ s₁.read b i = none))
    ∧ (s.Strays n a → ((resolve a n).run (s.acquire [.activation a])).1 = none) := by
  have hreach : Reachable (s.acquire [.activation a]) := by
    obtain ⟨names, hrun⟩ := h
    exact ⟨names, hrun.tail (.elsewhere (elsewhere_acquire (List.forall_mem_singleton.2 ha)))⟩
  have hs := hreach.sound
  have ho := hreach.orderly
  have hheld : Ref.activation a ∈ (s.acquire [.activation a]).roots := by simp [roots, acquire]
  have hspares := (spares_resolve hs.wellFormed (live_of_mem_roots hheld) n).1
  have hscopes : s.SameScopes (s.acquire [.activation a]) := ⟨rfl, fun _ => rfl, fun _ => rfl, rfl⟩
  have hdynamic := hscopes.lookupDynamic a n
  rw [resolve_of_forgotten hforgotten, resolveAnew_run] at hspares ⊢
  rw [← hdynamic]
  constructor
  · intro r hr
    cases hw : (s.acquire [.activation a]).walk n (s.acquire [.activation a]).chainBound a with
    | none => simp [hw] at hr
    | some found =>
        obtain ⟨f, path⟩ := found
        rw [hw] at hr hspares
        obtain rfl := Option.some.inj hr
        obtain ⟨hagrees, hnothing⟩ := reads_remembering hs ho hheld hw hspares
        dsimp only
        refine ⟨fun v hv => ?_, fun hu => ?_, fun hn => ?_⟩
        · rw [hv] at hagrees
          exact hagrees
        · rw [hu] at hagrees
          exact hagrees
        · obtain ⟨b, i, rfl, hb, hread⟩ := hnothing hn
          exact ⟨b, i, _, rfl, hb, hread⟩
  · intro hstrays
    rw [walk_of_strays ho (hstrays.acquire _)]

/-- A scope is inserted around one of two activations of a function. The name is found in it from there; from the
    other, which is not nested in it, nothing is answered, though the dynamic walk finds a value. -/
theorem strayed_after_attach :
    let ops : List Operation := [.newLayout "g" .singleton {}, .newScope ⟨0⟩ none 0,
      .define ⟨0⟩ ⟨2⟩ (.int 1), .newLayout "f" .function {}, .newScope ⟨1⟩ (some ⟨0⟩) 1,
      .newScope ⟨1⟩ (some ⟨0⟩) 1, .newLayout "s" .singleton {}, .newScope ⟨2⟩ none 0,
      .define ⟨3⟩ ⟨2⟩ (.int 2), .attach ⟨1⟩ ⟨3⟩]
    let s := ops.foldl Operation.perform (.new ["x"])
    Reachable s ∧ s.Live (.activation ⟨1⟩) ∧ s.Live (.activation ⟨2⟩)
      ∧ (s.acquire [.activation ⟨1⟩]).Forgotten ⟨1⟩ ⟨2⟩ ∧ (s.acquire [.activation ⟨2⟩]).Forgotten ⟨2⟩ ⟨2⟩
      ∧ s.lookupDynamic ⟨1⟩ ⟨2⟩ = some (.int 2) ∧ s.lookupDynamic ⟨2⟩ ⟨2⟩ = some (.int 1)
      ∧ ((resolve ⟨2⟩ ⟨2⟩).run (s.acquire [.activation ⟨2⟩])).1 = none := by
  intro ops s
  have hreach : Reachable s := ⟨["x"], .of_allHeld (by decide +kernel)⟩
  have hfirst : s.Live (.activation ⟨1⟩) := live_of_mem_roots (by decide +kernel)
  have hsecond : s.Live (.activation ⟨2⟩) := live_of_mem_roots (by decide +kernel)
  have hforgotten₁ : (s.acquire [.activation ⟨1⟩]).Forgotten ⟨1⟩ ⟨2⟩ := by decide +kernel
  have hforgotten₂ : (s.acquire [.activation ⟨2⟩]).Forgotten ⟨2⟩ ⟨2⟩ := by decide +kernel
  have hread := (fresh_walk_is_dynamic hreach hfirst hforgotten₁).1 (.stable ⟨3⟩ ⟨0⟩) (by decide +kernel)
  have hvalue := hread.1 (.int 2) (by decide +kernel)
  have hstrays : s.Strays ⟨2⟩ ⟨2⟩ := by
    apply Strays.here
    · rintro ⟨i, hi, -⟩
      have hnone : (s.layout (s.layoutOf ⟨2⟩)).slotIndex? ⟨2⟩ = none := by decide +kernel
      simp [hnone] at hi
    · decide +kernel
  have hgiven := (fresh_walk_is_dynamic hreach hsecond hforgotten₂).2 hstrays
  exact ⟨hreach, hfirst, hsecond, hforgotten₁, hforgotten₂, hvalue, by decide +kernel, hgiven⟩

end Store

end ScopeCall
