import ScopeCall.Proofs.Detaching
import ScopeCall.Proofs.Opening

/-!
# `ScopeCall.Proofs.Tidying` — results are made by lookups alone

Whatever else a program does with scopes, it adds no result to what is remembered, and claims no layout that
admits many activations, nor a layout for an activation of another. So in every store that a program can come
to, the guard of each result has been made, and a guard that is made later is that of no result on record.

## Contents
- **Orderly stores.** `Store.Orderly`, and `Store.Tidies`, a change that makes no result.
- **Claims.** `Store.KeepsClaims`: activations stay with their layouts, and claimed layouts stay claimed.
- **Changes.** Of slots alone (`Store.Still`), of links, by sweeps, and by making an activation.
- **Operations.** One lemma per operation that makes no result.
- **Lookups.** `Store.Learns`: one result is made, and `learns_perform`.
- **Steps.** `tidies_perform`, and from both `orderly_perform` and `claims_perform`.
- **Runs.** `Reachable.orderly`.
-/

namespace ScopeCall

namespace Store

variable {s s₁ s₂ : Store} {l : LayoutId} {a : ActivationId}

/-! ## Orderly stores -/

/-- No layout is claimed that admits many activations, or by an activation of another, and the guard of each
    result has been made. -/
structure Orderly (s : Store) : Prop where
  claimed : ∀ k a, (s.layout k).singleton = some a → (s.layout k).kind.isSingleton = true
  named : ∀ k a, (s.layout k).singleton = some a → s.Allocated (.activation a) ∧ s.layoutOf a = k
  memoGuards : ∀ k n r, (s.layout k).memo? n = some r → r.guard.index < s.lookups.size
  cacheGuards : ∀ c k r, (s.cache c).cached = some (k, r) → r.guard.index < s.lookups.size

/-! ## Claims -/

/-- Activations stay, each of its layout. -/
def KeepsScopes (s s' : Store) : Prop :=
  ∀ a, s.Allocated (.activation a) → s'.Allocated (.activation a) ∧ s'.layoutOf a = s.layoutOf a

theorem KeepsScopes.trans (h : s.KeepsScopes s₁) (h' : s₁.KeepsScopes s₂) : s.KeepsScopes s₂ := fun a ha =>
  have ⟨ha₁, hl⟩ := h a ha
  ⟨(h' a ha₁).1, (h' a ha₁).2.trans hl⟩

theorem keepsScopes_of_eq (h : s₁.activations = s.activations) : s.KeepsScopes s₁ := fun a ha => by
  rw [Allocated, layoutOf, activation, h]
  exact ⟨ha, rfl⟩

theorem keepsScopes_modifyActivation (s : Store) (a : ActivationId) {f : Activation → Activation}
    (hf : (f (s.activation a)).layout = (s.activation a).layout) : s.KeepsScopes (s.modifyActivation a f) :=
  fun b hb => ⟨(Leads.allocated_modifyActivation s a f _).2 hb,
    activation_modifyActivation_congr s Activation.layout a b f hf⟩

/-- Activations stay, and a layout is claimed by the activation that claimed it before, or by one of it. -/
structure KeepsClaims (s s' : Store) : Prop where
  scopes : s.KeepsScopes s'
  named : ∀ k, (s'.layout k).singleton = (s.layout k).singleton
    ∨ ∃ a, (s'.layout k).singleton = some a ∧ s'.Allocated (.activation a) ∧ s'.layoutOf a = k

theorem KeepsClaims.of_singleton (h : s.KeepsScopes s₁)
    (hsame : ∀ k, (s₁.layout k).singleton = (s.layout k).singleton) : s.KeepsClaims s₁ :=
  ⟨h, fun k => Or.inl (hsame k)⟩

theorem KeepsClaims.refl (s : Store) : s.KeepsClaims s :=
  .of_singleton (keepsScopes_of_eq rfl) fun _ => rfl

theorem KeepsClaims.trans (h : s.KeepsClaims s₁) (h' : s₁.KeepsClaims s₂) : s.KeepsClaims s₂ where
  scopes := h.scopes.trans h'.scopes
  named k := by
    rcases h'.named k with hsame | hnew
    · rw [hsame]
      refine (h.named k).imp_right fun ⟨a, ha, halloc, hl⟩ => ?_
      obtain ⟨halloc', hl'⟩ := h'.scopes a halloc
      exact ⟨a, ha, halloc', hl'.trans hl⟩
    · exact Or.inr hnew

/-- A layout that was claimed still is. -/
theorem KeepsClaims.claimed (h : s.KeepsClaims s₁) {k : LayoutId} (hk : (s.layout k).singleton ≠ none) :
    (s₁.layout k).singleton ≠ none := by
  rcases h.named k with hsame | ⟨a, ha, -⟩
  · exact hsame ▸ hk
  · simp [ha]

/-- No result has been made, and no layout claimed that admits many activations, or by an activation of
    another layout. -/
structure Tidies (s s' : Store) : Prop where
  claims : s.KeepsClaims s'
  claimed : ∀ k a, (s'.layout k).singleton = some a →
    (s.layout k).singleton = some a ∧ (s'.layout k).kind = (s.layout k).kind
      ∨ (s'.layout k).kind.isSingleton = true
  memo : ∀ k n r, (s'.layout k).memo? n = some r → (s.layout k).memo? n = some r
  memos : ∀ k, ∀ m ∈ (s'.layout k).memos, m ∈ (s.layout k).memos
  size : s.lookups.size ≤ s'.lookups.size
  cached : ∀ c p, (s'.cache c).cached = some p → (s.cache c).cached = some p

theorem Tidies.trans (h : s.Tidies s₁) (h' : s₁.Tidies s₂) : s.Tidies s₂ where
  claims := h.claims.trans h'.claims
  claimed k a ha := by
    rcases h'.claimed k a ha with ⟨ha, hk⟩ | hk
    · rw [hk]
      exact h.claimed k a ha
    · exact Or.inr hk
  memo k n r hr := h.memo k n r (h'.memo k n r hr)
  memos k m hm := h.memos k m (h'.memos k m hm)
  size := h.size.trans h'.size
  cached c p hp := h.cached c p (h'.cached c p hp)

theorem KeepsClaims.orderly (h : s.KeepsClaims s₁) (ho : s.Orderly) (k : LayoutId) (a : ActivationId)
    (ha : (s₁.layout k).singleton = some a) : s₁.Allocated (.activation a) ∧ s₁.layoutOf a = k := by
  rcases h.named k with hsame | ⟨b, hb, hnew⟩
  · obtain ⟨halloc, hl⟩ := ho.named k a (hsame ▸ ha)
    obtain ⟨halloc₁, hl₁⟩ := h.scopes a halloc
    exact ⟨halloc₁, hl₁.trans hl⟩
  · obtain rfl := Option.some.inj (ha.symm.trans hb)
    exact hnew

theorem Tidies.orderly (h : s.Tidies s₁) (ho : s.Orderly) : s₁.Orderly where
  named := h.claims.orderly ho
  claimed k a ha := by
    rcases h.claimed k a ha with ⟨ha, hk⟩ | hk
    · rw [hk]
      exact ho.claimed k a ha
    · exact hk
  memoGuards k n r hr := Nat.lt_of_lt_of_le (ho.memoGuards k n r (h.memo k n r hr)) h.size
  cacheGuards c k r hr := Nat.lt_of_lt_of_le (ho.cacheGuards c k r (h.cached c _ hr)) h.size

/-! ## Changes -/

/-- Only slots have changed, and what has nothing to do with layouts, lookups and read sites. -/
structure Still (s s' : Store) : Prop where
  scopes : s.KeepsScopes s'
  bare : ∀ k, (s'.layout k).bare = (s.layout k).bare
  lookups : s'.lookups = s.lookups
  caches : s'.caches = s.caches

theorem Still.refl (s : Store) : s.Still s := ⟨keepsScopes_of_eq rfl, fun _ => rfl, rfl, rfl⟩

theorem Still.trans (h : s.Still s₁) (h' : s₁.Still s₂) : s.Still s₂ :=
  ⟨h.scopes.trans h'.scopes, fun k => (h'.bare k).trans (h.bare k), h'.lookups.trans h.lookups,
    h'.caches.trans h.caches⟩

/-- Layouts, activations, lookups and read sites are as they were. -/
theorem still_of_eq (hlayouts : s₁.layouts = s.layouts) (hactivations : s₁.activations = s.activations)
    (hlookups : s₁.lookups = s.lookups) (hcaches : s₁.caches = s.caches) : s.Still s₁ :=
  ⟨keepsScopes_of_eq hactivations, fun k => by rw [layout, hlayouts, ← layout], hlookups, hcaches⟩

theorem still_modifyActivation (s : Store) (a : ActivationId) {f : Activation → Activation}
    (hf : (f (s.activation a)).layout = (s.activation a).layout) : s.Still (s.modifyActivation a f) :=
  ⟨keepsScopes_modifyActivation s a hf, fun _ => rfl, rfl, rfl⟩

theorem Still.part {α : Type} (h : s.Still s₁) (part : Layout → α)
    (hpart : ∀ x : Layout, part x.bare = part x) (k : LayoutId) :
    part (s₁.layout k) = part (s.layout k) := by
  rw [← hpart, h.bare, hpart]

theorem Still.tidies (h : s.Still s₁) : s.Tidies s₁ where
  claims := .of_singleton h.scopes (h.part Layout.singleton fun _ => rfl)
  claimed k a ha := by
    rw [h.part Layout.singleton fun _ => rfl] at ha
    exact Or.inl ⟨ha, h.part Layout.kind (fun _ => rfl) k⟩
  memo k n r hr := by rwa [h.part (Layout.memo? · n) fun _ => rfl] at hr
  memos k m hm := by rwa [h.part Layout.memos fun _ => rfl] at hm
  size := h.lookups ▸ Nat.le_refl _
  cached c p hp := by rwa [cache, h.caches, ← cache] at hp

theorem Tidies.refl (s : Store) : s.Tidies s := (Still.refl s).tidies

theorem tidies_of_eq (hlayouts : s₁.layouts = s.layouts) (hactivations : s₁.activations = s.activations)
    (hlookups : s₁.lookups = s.lookups) (hcaches : s₁.caches = s.caches) : s.Tidies s₁ :=
  (still_of_eq hlayouts hactivations hlookups hcaches).tidies

theorem Rewires.tidies (h : s.Rewires s₁) : s.Tidies s₁ where
  claims := .of_singleton (fun a ha => ⟨(h.allocated_activation a).2 ha, h.layoutOf a⟩)
    fun k => by rw [h.layout]
  claimed k a ha := by
    rw [h.layout] at ha
    exact Or.inl ⟨ha, by rw [h.layout]⟩
  memo k n r hr := by rwa [h.layout] at hr
  memos k m hm := by rwa [h.layout] at hm
  size := h.lookups ▸ Nat.le_refl _
  cached c p hp := by rwa [cache, h.caches, ← cache] at hp

/-- A sweep only takes results away. -/
theorem tidies_sweep {visit : Layout → Visit} {N : Name → Prop} (hv : Forgetting visit N) (fuel : Nat)
    (ls : List LayoutId) (s : Store) : s.Tidies (Store.sweep visit fuel ls s) := by
  refine sweep_induction (fun s₁ k h => h.trans ?_) _ _ (Tidies.refl s)
  have hsw := s₁.swept_visited hv.forgot k
  exact {
    claims := .of_singleton (keepsScopes_of_eq (by rw [hsw.eq])) fun j => (hsw.layout j).singleton
    claimed j a ha := by
      rw [(hsw.layout j).singleton] at ha
      exact Or.inl ⟨ha, (hsw.layout j).kind⟩
    memo j n r hr := by
      rw [visited, layout_modifyLayout] at hr
      split at hr
      · rename_i hj
        rw [hj.1]
        exact hv.memo_of _ n r hr
      · rwa [(s₁.aside_invalidateEach _).layout] at hr
    memos j := (hsw.layout j).memos
    size := hsw.sizeLookups.ge
    cached c p hp := by rwa [hsw.eq] at hp }

theorem tidies_invalidateNames (s : Store) (l : LayoutId) (names : List Name) :
    s.Tidies (s.invalidateNames l names) := tidies_sweep (forgetting_forgetNames names) _ _ s

theorem tidies_invalidateAll (s : Store) (l : LayoutId) : s.Tidies (s.invalidateAll l) :=
  tidies_sweep forgetting_forgetAll _ _ s

theorem bare_replaceStable (s : Store) (l : LayoutId) (i : Nat) (info : SlotInfo) (t : StableId)
    (v : Option Value) (k : LayoutId) : ((s.replaceStable l i info t v).layout k).bare = (s.layout k).bare := by
  unfold replaceStable modifySlot
  dsimp only
  split <;> exact layout_modifyLayout_congr _ Layout.bare l k _ rfl

/-- Tracking a value changes slots only. -/
theorem still_recordWrite (s : Store) (l : LayoutId) (i : Nat) (v : Option Value) :
    s.Still ((recordWrite l i v).run s).2 := by
  rw [recordWrite_run]
  split
  · exact .refl s
  · split
    · exact .refl s
    · split
      · exact .refl s
      · refine ⟨keepsScopes_of_eq ?_, bare_replaceStable s l i _ _ v, ?_, ?_⟩
        all_goals
          unfold replaceStable
          dsimp only
          split <;> rfl

theorem still_emptied (s : Store) (l : LayoutId) (i n : Nat) : s.Still (s.emptied l i n) := by
  induction n generalizing s i with
  | zero => exact .refl s
  | succ n ih =>
      rw [emptied_succ]
      exact (still_recordWrite s l i none).trans (ih _ (i + 1))

theorem still_widened (s : Store) (l : LayoutId) (n : Name) : s.Still (s.widened l n) := by
  unfold widened
  dsimp only
  split
  all_goals
    refine ⟨keepsScopes_of_eq rfl, fun k => ?_, rfl, rfl⟩
    exact layout_modifyLayout_congr _ Layout.bare l k _ rfl

theorem still_giveUpSharing (s : Store) (l : LayoutId) (i : Nat) (info : SlotInfo) :
    s.Still (s.giveUpSharing l i info) := by
  unfold giveUpSharing dropStable
  split
  · exact still_of_eq rfl rfl rfl rfl
  · dsimp only
    split
    all_goals
      refine ⟨keepsScopes_of_eq rfl, fun k => ?_, rfl, rfl⟩
      exact layout_modifyLayout_congr (s.invalidate info.notModifiedNonLocally) Layout.bare l k _ rfl

theorem still_setContent (s : Store) (a : ActivationId) (i : Nat) (c : SlotContent) :
    s.Still (s.setContent a i c) := still_modifyActivation s a rfl

theorem still_noted (s : Store) (a : ActivationId) (v : Value) : s.Still (s.noted a v) := by
  unfold noted
  split <;> exact still_of_eq rfl rfl rfl rfl

theorem still_noteWrite (s : Store) (info : SlotInfo) (nonLocal irregular : Bool) :
    s.Still (s.noteWrite info nonLocal irregular) := by
  unfold noteWrite
  split <;> exact still_of_eq rfl rfl rfl rfl

theorem still_store (s : Store) (a : ActivationId) (slot : Nat) (v : Value) :
    s.Still ((store a slot v).run s).2 := by
  rw [store_run]
  split
  · exact still_setContent s a slot _
  · exact (still_recordWrite s _ slot _).trans (still_setContent _ a slot _)

theorem still_empty (s : Store) (a : ActivationId) (slot : Nat) : s.Still ((empty a slot).run s).2 := by
  rw [empty_run]
  refine Still.trans ?_ (still_recordWrite _ _ slot none)
  split
  · exact .refl s
  · exact still_setContent s a slot _

theorem still_fanOutSlot (s : Store) (a : ActivationId) (slot : Nat) (contexts : List Nat)
    (replicate : Bool) : s.Still ((fanOutSlot a slot contexts replicate).run.run s).2 := by
  rw [fanOutSlot_run]
  split
  · split
    · exact .refl s
    · split
      · exact .refl s
      · have hgive := still_giveUpSharing s (s.layoutOf a) slot ‹_›
        generalize s.preparedEntries a slot _ contexts replicate = entries
        rcases entries with ⟨vs, heap⟩
        have hheap : (s.giveUpSharing (s.layoutOf a) slot ‹_›).Still
            { s.giveUpSharing (s.layoutOf a) slot ‹_› with heap } := still_of_eq rfl rfl rfl rfl
        exact (hgive.trans hheap).trans (still_setContent _ a slot (.fanOut vs))
  · exact .refl s

theorem tidies_inherited (s : Store) (i old : LayoutId) : s.Tidies (s.inherited i old) :=
  have hsingleton := part_inherited (s := s) Layout.singleton (fun _ _ => rfl) i old
  ⟨.of_singleton (keepsScopes_of_eq rfl) hsingleton,
    fun k _ ha => Or.inl ⟨hsingleton k ▸ ha, part_inherited Layout.kind (fun _ _ => rfl) i old k⟩,
    (retains_inherited s i old).memo,
    fun k _ hm => part_inherited (s := s) Layout.memos (fun _ _ => rfl) i old k ▸ hm, Nat.le_refl _, fun _ _ => id⟩

/-! ## Operations -/

theorem tidies_findOrAddSlot (s : Store) (l : LayoutId) (n : Name) :
    s.Tidies ((findOrAddSlot l n).run s).2 := by
  rw [findOrAddSlot_run]
  split
  · exact .refl s
  · exact (still_widened s l n).tidies.trans (tidies_invalidateNames _ l _)

theorem tidies_write (s : Store) (a : ActivationId) (slot : Nat) (v : Value) (nonLocal : Bool) :
    s.Tidies ((write a slot v nonLocal).run.run s).2 := by
  have hstored := ((still_noted s a v).trans (still_store (s.noted a v) a slot v)).tidies
  rw [write_run]
  split
  · exact .refl s
  · rename_i info _
    generalize (store a slot v).run (s.noted a v) = result at hstored ⊢
    rcases result with ⟨filled, s₁⟩
    dsimp only at hstored ⊢
    refine Tidies.trans ?_ (still_noteWrite _ info nonLocal _).tidies
    split
    · exact hstored.trans (tidies_invalidateNames s₁ _ _)
    · exact hstored

theorem tidies_bindName (s : Store) (a : ActivationId) (n : Name) (v : Value) (nonLocal : Bool) :
    s.Tidies ((bindName a n v nonLocal).run.run s).2 := by
  rw [bindName_run]
  exact (tidies_findOrAddSlot s _ n).trans (tidies_write _ a _ v nonLocal)

theorem tidies_remove (s : Store) (a : ActivationId) (n : Name) : s.Tidies ((remove a n).run s).2 := by
  rw [remove_run]
  split
  · exact .refl s
  · split
    · exact .refl s
    · exact ((still_empty s a _).trans (still_noteWrite _ _ _ _)).tidies.trans (tidies_invalidateNames _ _ _)

theorem tidies_setEnclosing (s : Store) (a : ActivationId) (parent : Option ActivationId) :
    s.Tidies ((setEnclosing a parent).run.run s).2 := by
  rw [setEnclosing_run]
  split
  · exact (tidies_invalidateAll s _).trans
      ((rewires_rehung _ _ _).trans (rewires_setEnclosingLink _ a parent)).tidies
  · exact .refl s

theorem tidies_cleared (s : Store) (l i : LayoutId) : s.Tidies (s.cleared l i) :=
  (tidies_invalidateAll s i).trans (tidies_invalidateNames _ l _)

theorem tidies_attach (s : Store) (a inserted : ActivationId) :
    s.Tidies ((attach a inserted).run.run s).2 := by
  rw [attach_run]
  split
  · exact .refl s
  · rename_i old _
    dsimp only
    have htidies := (tidies_cleared s (s.layoutOf a) (s.layoutOf inserted)).trans
      (tidies_inherited _ (s.layoutOf inserted) old)
    generalize (s.cleared (s.layoutOf a) (s.layoutOf inserted)).inherited (s.layoutOf inserted) old = s₁
      at htidies ⊢
    have hspliced := rewires_spliced s₁ (s.layoutOf a) (s.layoutOf inserted) old
    generalize s₁.spliced (s.layoutOf a) (s.layoutOf inserted) old = s₂ at hspliced ⊢
    exact htidies.trans ((hspliced.trans (rewires_setEnclosingLink s₂ a _)).trans
      (rewires_setEnclosingLink _ inserted _)).tidies

theorem tidies_detachEnclosing (s : Store) (a : ActivationId) :
    s.Tidies ((detachEnclosing a).run.run s).2 := by
  rw [detachEnclosing_run]
  split
  · exact .refl s
  · rename_i old _
    dsimp only
    have hbypassed := rewires_bypassed (s.invalidateNames old (s.layout old).identifiers) (s.layoutOf a)
      old (s.parent old)
    have htidies := (tidies_invalidateNames s old (s.layout old).identifiers).trans hbypassed.tidies
    generalize (s.invalidateNames old (s.layout old).identifiers).bypassed (s.layoutOf a) old
      (s.parent old) = s₁ at htidies ⊢
    have hlink := rewires_setEnclosingLink s₁ a none
    split
    · exact htidies.trans hlink.tidies
    · exact htidies.trans ((hlink.trans (rewires_setEnclosingLink _ _ none)).trans
        (rewires_setEnclosingLink _ a _)).tidies

theorem tidies_writeInContext (s : Store) (a : ActivationId) (slot : Nat) (v : Value) :
    s.Tidies ((writeInContext a slot v).run.run s).2 := by
  rw [writeInContext_run]
  split
  · exact .refl s
  · split
    · exact tidies_write s a slot v false
    · split
      · refine (Still.trans ?_ (still_setContent _ a slot _)).tidies
        split
        · exact .refl s
        · exact still_giveUpSharing s _ slot _
      · exact .refl s

section Entering

variable {enclosing : Option ActivationId} {depth : Nat}

theorem keepsScopes_joined (s : Store) (l : LayoutId) (enclosing : Option ActivationId) (depth : Nat) :
    s.KeepsScopes (s.joined l enclosing depth) := fun a ha => by
  rw [layoutOf, activation_joined, if_neg (Nat.ne_of_lt ha)]
  exact ⟨Nat.lt_of_lt_of_eq (Nat.lt_succ_of_lt ha) (Array.size_push _).symm, rfl⟩

/-- A layout that admits one activation is claimed by an activation of it. -/
theorem tidies_claimed (hl : s.Allocated (.layout l)) (hk : (s.layout l).kind.isSingleton = true) :
    s.Tidies (s.claimed l enclosing depth) := by
  have hnew : (s.claimed l enclosing depth).Allocated (.activation ⟨s.activations.size⟩)
      ∧ (s.claimed l enclosing depth).layoutOf ⟨s.activations.size⟩ = l :=
    ⟨Nat.lt_of_lt_of_eq (Nat.lt_succ_self _) (Array.size_push _).symm,
      congrArg Activation.layout ((activation_joined _).trans (if_pos rfl))⟩
  refine ⟨⟨keepsScopes_joined s l enclosing depth, fun k => ?_⟩, fun k a ha => ?_,
    (s.retains_claimed l enclosing depth).memo,
    fun k m hm => claim_part (s := s.joined l enclosing depth) Layout.memos (fun _ => rfl) l k ▸ hm, Nat.le_refl _,
    fun _ _ => id⟩
  · rw [singleton_claimed depth hl]
    split
    · rename_i hkl
      exact Or.inr ⟨_, rfl, hkl ▸ hnew⟩
    · exact Or.inl rfl
  · rw [singleton_claimed depth hl] at ha
    rw [kind_claimed]
    split at ha
    · rename_i hkl
      exact Or.inr (hkl ▸ hk)
    · exact Or.inl ⟨ha, rfl⟩

theorem tidies_enter (hl : s.Allocated (.layout l)) :
    s.Tidies ((enter l enclosing depth).run.run s).2 := by
  rw [enter_run]
  split
  · rename_i hk
    split
    · exact tidies_of_eq rfl rfl rfl rfl
    · dsimp only
      split
      · exact ((tidies_claimed hl hk).trans (still_emptied _ l 0 _).tidies).trans (tidies_invalidateAll _ l)
      · exact tidies_claimed hl hk
  · have hjoined : s.Still (s.joined l enclosing depth) :=
      ⟨keepsScopes_joined s l enclosing depth, fun _ => rfl, rfl, rfl⟩
    exact hjoined.tidies

theorem tidies_newScope (hl : s.Allocated (.layout l)) :
    s.Tidies ((Operation.newScope l enclosing depth).perform s) := by
  have hrun : s.Tidies ((newScope l enclosing depth).run.run s).2 := by
    rcases newScope_cases s l enclosing depth with hrun | ⟨e, hrun⟩ | ⟨b, -, -, hrun⟩ <;> rw [hrun]
    · exact tidies_enter hl
    · exact .refl s
    · have hw := rewires_linked s l (s.layoutOf b)
      exact hw.tidies.trans (tidies_enter ((hw.allocated_layout l).2 hl))
  rw [Operation.perform]
  generalize (newScope l enclosing depth).run.run s = result at hrun ⊢
  rcases result with ⟨e | a, s₁⟩
  · exact hrun
  · exact hrun.trans (tidies_of_eq rfl rfl rfl rfl)

end Entering

theorem tidies_newLayout (s : Store) (label : String) (kind : LayoutKind) (policy : BindingPolicy) :
    s.Tidies ((newLayout label kind policy).run s).2 := by
  rw [newLayout_run]
  dsimp only
  generalize hfresh : ({ label := label, kind := kind, policy := policy
                         noActiveBinding := ⟨s.guards.size⟩
                         enclosingGuard := ⟨(s.addGuard (label ++ " has no active bindings")).guards.size⟩ } :
    Layout) = fresh
  have hlayout : ∀ k, (((s.addGuard (label ++ " has no active bindings")).addGuard
      (label ++ " enclosing")).addLayout fresh).layout k
        = if k.index = s.layouts.size then fresh else s.layout k := fun k => layout_addLayout _ fresh k
  refine ⟨.of_singleton (keepsScopes_of_eq rfl) (addLayout_part Layout.singleton (by rw [← hfresh]; rfl)),
    fun k a ha => ?_, fun k n r hr => ?_, fun k m hm => ?_, Nat.le_refl _, fun _ _ => id⟩
  · rw [hlayout] at ha ⊢
    split at ha
    · subst hfresh
      simp at ha
    · rename_i hk
      rw [if_neg hk]
      exact Or.inl ⟨ha, rfl⟩
  · rw [hlayout] at hr
    split at hr
    · subst hfresh
      simp [Layout.memo?] at hr
    · exact hr
  · rw [hlayout] at hm
    split at hm
    · subst hfresh
      exact absurd hm List.not_mem_nil
    · exact hm

theorem tidies_newCache (s : Store) (n : Name) : s.Tidies (s.addCache n) := by
  refine ⟨.of_singleton (keepsScopes_of_eq rfl) fun _ => rfl, fun _ _ ha => Or.inl ⟨ha, rfl⟩, fun _ _ _ => id,
    fun _ _ => id, Nat.le_refl _, fun c p hp => ?_⟩
  have hcache : (s.addCache n).cache c = if c.index = s.caches.size then { name := n } else s.cache c :=
    Array.getD_push s.caches _ c.index
  rw [hcache] at hp
  split at hp
  · simp at hp
  · exact hp

theorem tidies_initializeEnclosing (s : Store) (l : LayoutId) (parent : Option LayoutId) :
    s.Tidies ((initializeEnclosing l parent).run.run s).2 := by
  rw [initializeEnclosing_run]
  split
  · exact ((rewires_relinked s l _).trans (rewires_addChild _ _ l)).tidies
  · split <;> exact .refl s

/-! ## Lookups -/

/-- A result has been found for a name at a layout, and is remembered there with a new guard. -/
structure Learns (s s' : Store) (l : LayoutId) (n : Name) (r : LookupResult) : Prop where
  scopes : s.SameScopes s'
  kind : ∀ k, (s'.layout k).kind = (s.layout k).kind
  singleton : ∀ k, (s'.layout k).singleton = (s.layout k).singleton
  children : ∀ k, (s'.layout k).children = (s.layout k).children
  recorded : ∀ k m, m ∈ (s.layout k).recorded → m ∈ (s'.layout k).recorded
  memo : ∀ k m, (s'.layout k).memo? m = if k = l ∧ m = n then some r else (s.layout k).memo? m
  memos : ∀ k, ∀ m ∈ (s'.layout k).memos, m ∈ (s.layout k).memos ∨ k = l ∧ m = (n, r)
  caches : s'.caches = s.caches
  stables : s'.stables = s.stables
  size : s.lookups.size ≤ s'.lookups.size
  fresh : s.lookups.size ≤ r.guard.index
  made : r.guard.index < s'.lookups.size
  valid : ∀ g, g.index < s.lookups.size → s'.lookupValid g = true → s.lookupValid g = true
  /-- The guard of the result that was remembered there before has fallen. -/
  replaced : ∀ q, (s.layout l).memo? n = some q → s'.lookupValid q.guard = false

theorem Learns.claims {n : Name} {r : LookupResult} (h : s.Learns s₁ l n r) : s.KeepsClaims s₁ :=
  .of_singleton (keepsScopes_of_eq h.scopes.activations) h.singleton

theorem Learns.orderly {n : Name} {r : LookupResult} (h : s.Learns s₁ l n r) (ho : s.Orderly) :
    s₁.Orderly := by
  refine ⟨fun k a ha => ?_, h.claims.orderly ho, fun k m q hq => ?_, fun c k q hq => ?_⟩
  · rw [h.singleton] at ha
    rw [h.kind]
    exact ho.claimed k a ha
  · rw [h.memo] at hq
    split at hq
    · exact Option.some.inj hq ▸ h.made
    · exact Nat.lt_of_lt_of_le (ho.memoGuards k m q hq) h.size
  · rw [cache, h.caches, ← cache] at hq
    exact Nat.lt_of_lt_of_le (ho.cacheGuards c k q hq) h.size

theorem mem_path_of_walk {n : Name} {fuel : Nat} {f : Finding} {path : List ActivationId}
    (hw : s.walk n fuel a = some (f, path)) : a ∈ path := by
  cases walks_of_walk hw <;> exact List.mem_cons_self

/-- **A walk that ends leaves one result behind.** -/
theorem learns_remembering (hs : s.Sound) (ha : s.Live (.activation a)) {n : Name} {fuel : Nat}
    {f : Finding} {path : List ActivationId} (hw : s.walk n fuel a = some (f, path)) :
    s.Learns (s.remembering a n f path) (s.layoutOf a) n (f.toResult ⟨s.lookups.size⟩) := by
  have hl := (ha.layoutOf hs.wellFormed).allocated hs.wellFormed
  have hstart : a ∈ path := mem_path_of_walk hw
  unfold remembering
  dsimp only
  generalize "lookup " ++ n.debug ++ " from " ++ (s.layout (s.layoutOf a)).label = label
  obtain ⟨heq, -⟩ := (s.addLookup label).recordWalk_eq n path
  have hpart : ∀ {α : Type} (part : Layout → α),
      (∀ (x : Layout) names, part { x with recorded := names } = part x) → ∀ k,
      part (((s.addLookup label).recordWalk n path).layout k) = part (s.layout k) := fun part hp =>
    part_recordWalk part hp (s.addLookup label) n path
  have hrecorded := fun m k => ((s.addLookup label).mem_recordWalk n m path k).2
  have hmemo := memoizes_memoize (hrecorded n _ (Or.inr ⟨rfl, hl, a, hstart, rfl⟩))
    (f.toResult ⟨s.lookups.size⟩)
  -- The store goes through three: a guard is added, the path is recorded, and the result is remembered.
  generalize (s.addLookup label).recordWalk n path = s₁ at heq hpart hrecorded hmemo ⊢
  generalize s₁.memoize (s.layoutOf a) n (f.toResult ⟨s.lookups.size⟩) = s₂ at hmemo ⊢
  have hlookups : s₁.lookups = (s.addLookup label).lookups := by rw [heq]
  have hlast : s₁.lookups.size = s.lookups.size + 1 := by
    rw [hlookups]
    exact Array.size_push _
  have hlayout : ∀ {α : Type} (part : Layout → α),
      (∀ (x : Layout) names, part { x with recorded := names } = part x) →
      (∀ (x : Layout) memos, part { x with memos := memos } = part x) → ∀ k,
      part (s₂.layout k) = part (s.layout k) := fun part hp hp' k => by
    rw [hmemo.layout, hp', hpart part hp]
  have hscopes : s.SameScopes s₂ := {
    activations := by
      rw [hmemo.eq, heq]
      rfl
    slots := hlayout Layout.slots (fun _ _ => rfl) fun _ _ => rfl
    enclosing := hlayout Layout.enclosing (fun _ _ => rfl) fun _ _ => rfl
    contexts := by
      rw [hmemo.eq, heq]
      rfl }
  exact {
    scopes := hscopes
    kind := hlayout Layout.kind (fun _ _ => rfl) fun _ _ => rfl
    singleton := hlayout Layout.singleton (fun _ _ => rfl) fun _ _ => rfl
    children := hlayout Layout.children (fun _ _ => rfl) fun _ _ => rfl
    recorded k m hm := by
      rw [hmemo.layout]
      exact hrecorded m k (Or.inl hm)
    memo k m := by rw [hmemo.memo, hpart (Layout.memo? · m) fun _ _ => rfl]
    memos k m hm := by
      rw [← hpart Layout.memos fun _ _ => rfl]
      exact hmemo.memos k m hm
    caches := by
      rw [hmemo.eq, heq]
      rfl
    stables := by
      rw [hmemo.eq, heq]
      rfl
    size := by
      rw [hmemo.sizeLookups, hlast]
      exact Nat.le_succ _
    fresh := by rw [LookupResult.guard_toResult]
    made := by
      rw [hmemo.sizeLookups, hlast, LookupResult.guard_toResult]
      exact Nat.lt_succ_self _
    valid g hg hv := by
      have hold := ((hmemo.valid g).1 hv).1
      rw [lookupValid, lookup, hlookups, ← lookup, ← lookupValid, lookupValid_addLookup,
        if_neg (Nat.ne_of_lt hg)] at hold
      exact hold
    replaced q hq := by
      refine Bool.eq_false_iff.2 fun hvalid => ((hmemo.valid _).1 hvalid).2 q ?_ rfl
      rw [hpart (Layout.memo? · n) fun _ _ => rfl]
      exact hq }

/-- Resolving a name answers what is remembered, or walks; a walk that gives up changes nothing. -/
theorem resolve_cases (hs : s.Sound) (ha : s.Live (.activation a)) (n : Name) :
    (((resolve a n).run s).2 = s ∧ ∀ r, ((resolve a n).run s).1 = some r →
        (s.layout (s.layoutOf a)).memo? n = some r)
      ∨ ∃ f path, s.walk n s.chainBound a = some (f, path)
        ∧ ((resolve a n).run s).1 = some (f.toResult ⟨s.lookups.size⟩)
        ∧ s.Learns ((resolve a n).run s).2 (s.layoutOf a) n (f.toResult ⟨s.lookups.size⟩) := by
  have hanew : (((resolveAnew a n).run s).2 = s ∧ ((resolveAnew a n).run s).1 = none)
      ∨ ∃ f path, s.walk n s.chainBound a = some (f, path)
        ∧ ((resolveAnew a n).run s).1 = some (f.toResult ⟨s.lookups.size⟩)
        ∧ s.Learns ((resolveAnew a n).run s).2 (s.layoutOf a) n (f.toResult ⟨s.lookups.size⟩) := by
    rw [resolveAnew_run]
    split
    · exact Or.inl ⟨rfl, rfl⟩
    · rename_i f path hw
      exact Or.inr ⟨f, path, hw, rfl, learns_remembering hs ha hw⟩
  have hfresh := hanew.imp_left fun ⟨hsame, hnone⟩ =>
    (⟨hsame, fun r hr => absurd (hnone.symm.trans hr) (by simp)⟩ : _ ∧ ∀ r,
      ((resolveAnew a n).run s).1 = some r → (s.layout (s.layoutOf a)).memo? n = some r)
  rw [resolve_run]
  split
  · rename_i r hmemo
    split
    · refine Or.inl ⟨rfl, ?_⟩
      rintro q ⟨rfl⟩
      exact hmemo
    · exact hfresh
  · exact hfresh

/-- What is answered is remembered, with a guard that has been made. -/
theorem orderly_resolve (hs : s.Sound) (ho : s.Orderly) (ha : s.Live (.activation a)) (n : Name) :
    ((resolve a n).run s).2.Orderly ∧ ∀ r, ((resolve a n).run s).1 = some r →
      (((resolve a n).run s).2.layout (s.layoutOf a)).memo? n = some r := by
  rcases resolve_cases hs ha n with ⟨hsame, hmemo⟩ | ⟨f, path, -, hanswer, hlearns⟩
  · rw [hsame]
    exact ⟨ho, hmemo⟩
  · refine ⟨hlearns.orderly ho, fun r hr => ?_⟩
    rw [hlearns.memo, if_pos ⟨rfl, rfl⟩, ← hanswer, hr]

theorem cache_modifyCache (s : Store) (c d : CacheId) (f : LookupCache → LookupCache) :
    (s.modifyCache c f).cache d
      = if d.index = c.index ∧ c.index < s.caches.size then f (s.cache c) else s.cache d :=
  Array.getD_modify s.caches c.index d.index _

theorem orderly_cachedRead (hs : s.Sound) (ho : s.Orderly) (ha : s.Live (.activation a)) (c : CacheId) :
    ((cachedRead c a).run s).2.Orderly := by
  rw [cachedRead_run]
  split
  · exact ho
  · exact ho
  · obtain ⟨ho₁, hmemo⟩ := orderly_resolve hs ho ha (s.cache c).name
    generalize (resolve a (s.cache c).name).run s = result at ho₁ hmemo ⊢
    rcases result with ⟨_ | r, s₁⟩
    · exact ho₁
    · refine ⟨ho₁.claimed, ho₁.named, ho₁.memoGuards, fun d k q hq => ?_⟩
      dsimp only at hq ⊢
      rw [cache_modifyCache] at hq
      split at hq
      · obtain ⟨-, rfl⟩ := Prod.mk.inj (Option.some.inj hq)
        exact ho₁.memoGuards _ _ _ (hmemo r rfl)
      · exact ho₁.cacheGuards d k q hq

namespace Operation

/-- Operations that may leave a result behind. -/
def LooksUp : Operation → Prop
  | .resolve .. | .cachedRead .. => True
  | _ => False

/-- The operation looks up a name from an activation. -/
def LooksUpFrom (s : Store) : Operation → ActivationId → Name → Prop
  | .resolve b m, a, n    => b = a ∧ m = n
  | .cachedRead c b, a, n => b = a ∧ (s.cache c).name = n
  | _, _, _               => False

end Operation

section Lookup

variable {op : Operation} {n : Name}

theorem mem_roots_of_looksUpFrom (hop : op.LooksUpFrom s a n) (h : ∀ r ∈ op.operands, r ∈ s.roots) :
    Ref.activation a ∈ s.roots := by
  cases op with
  | resolve b m => exact hop.1 ▸ h _ List.mem_cons_self
  | cachedRead c b => exact hop.1 ▸ h _ (List.mem_cons_of_mem _ List.mem_cons_self)
  | _ => exact hop.elim

/-- A lookup leaves what resolving the name leaves, or nothing. -/
theorem perform_lookup (hop : op.LooksUpFrom s a n) : ∃ s₁, (s₁ = s ∨ s₁ = ((resolve a n).run s).2)
    ∧ (op.perform s).layouts = s₁.layouts ∧ (op.perform s).activations = s₁.activations
    ∧ (op.perform s).lookups = s₁.lookups ∧ (op.perform s).roots = s₁.roots := by
  cases op with
  | resolve b m =>
      obtain ⟨rfl, rfl⟩ := hop
      exact ⟨_, Or.inr rfl, rfl, rfl, rfl, rfl⟩
  | cachedRead c b =>
      obtain ⟨rfl, rfl⟩ := hop
      rw [Operation.perform, cachedRead_run]
      split
      · exact ⟨s, Or.inl rfl, rfl, rfl, rfl, rfl⟩
      · exact ⟨s, Or.inl rfl, rfl, rfl, rfl, rfl⟩
      · generalize (resolve b (s.cache c).name).run s = result
        rcases result with ⟨_ | r, s₁⟩ <;> exact ⟨s₁, Or.inr rfl, rfl, rfl, rfl, rfl⟩
  | _ => exact hop.elim

/-- **A lookup leaves one result behind, or nothing**, read sites apart. -/
theorem learns_perform (hs : s.Sound) (h : ∀ r ∈ op.operands, r ∈ s.roots) (hlooks : op.LooksUp) :
    ∃ s₁, (s₁ = s ∨ ∃ l n r, s.Learns s₁ l n r) ∧ (op.perform s).layouts = s₁.layouts
      ∧ (op.perform s).activations = s₁.activations ∧ (op.perform s).lookups = s₁.lookups := by
  obtain ⟨a, n, hop⟩ : ∃ a n, op.LooksUpFrom s a n := by
    cases op with
    | resolve a n => exact ⟨a, n, rfl, rfl⟩
    | cachedRead c a => exact ⟨a, _, rfl, rfl⟩
    | _ => exact hlooks.elim
  have ha := live_of_mem_roots (mem_roots_of_looksUpFrom hop h)
  obtain ⟨s₁, hfound, hlayouts, hactivations, hlookups, -⟩ := perform_lookup hop
  refine ⟨s₁, hfound.elim Or.inl ?_, hlayouts, hactivations, hlookups⟩
  rintro rfl
  rcases resolve_cases hs ha n with ⟨hsame, -⟩ | ⟨f, path, -, -, hlearns⟩
  · exact Or.inl hsame
  · exact Or.inr ⟨_, _, _, hlearns⟩

end Lookup

/-! ## Steps -/

/-- **Every operation but a lookup makes no result.** -/
theorem tidies_perform (hs : s.WellFormed) {op : Operation} (h : ∀ r ∈ op.operands, r ∈ s.roots)
    (hlooks : ¬ op.LooksUp) : s.Tidies (op.perform s) := by
  cases op with
  | resolve a n => exact absurd trivial hlooks
  | cachedRead c a => exact absurd trivial hlooks
  | newLayout label kind policy =>
      exact (tidies_newLayout s label kind policy).trans (tidies_of_eq rfl rfl rfl rfl)
  | newScope l enclosing depth => exact tidies_newScope (hs.roots _ (h _ List.mem_cons_self))
  | newCache n => exact (tidies_newCache s n).trans (tidies_of_eq rfl rfl rfl rfl)
  | initializeEnclosing l parent => exact tidies_initializeEnclosing s l parent
  | relink l parent =>
      rw [Operation.perform, relinkTo_run]
      exact (tidies_invalidateAll s l).trans (rewires_rehung _ l parent).tidies
  | findOrAddSlot l n => exact tidies_findOrAddSlot s l n
  | invalidateNames l names => exact tidies_invalidateNames s l names
  | invalidateAll l => exact tidies_invalidateAll s l
  | define a n v | assignNonLocal a n v => exact tidies_bindName s a n v _
  | setActiveBinding a n g => exact tidies_bindName s a n _ false
  | write a slot v nonLocal => exact tidies_write s a slot v nonLocal
  | remove a n => exact tidies_remove s a n
  | markIrregular a => exact (still_modifyActivation s a rfl).tidies
  | setEnclosing a parent => exact tidies_setEnclosing s a parent
  | attach a inserted => exact tidies_attach s a inserted
  | detachEnclosing a => exact tidies_detachEnclosing s a
  | registerContexts additional => exact tidies_of_eq rfl rfl rfl rfl
  | enterContext context => exact tidies_of_eq rfl rfl rfl rfl
  | leaveContext previous => exact tidies_of_eq rfl rfl rfl rfl
  | writeInContext a slot v => exact tidies_writeInContext s a slot v
  | fanOutSlot a slot contexts replicate => exact (still_fanOutSlot s a slot contexts replicate).tidies
  | fanOutAll a contexts replicate =>
      exact fanOutAll_run (P := s.Tidies) s a contexts replicate
        (fun slot s₁ h => h.trans (still_fanOutSlot s₁ a slot contexts replicate).tidies) (.refl s)
  | cleanFanOut a contexts => exact (still_modifyActivation s a rfl).tidies

/-- **Every operation keeps an orderly store orderly.** -/
theorem orderly_perform (hs : s.Sound) {op : Operation} (h : ∀ r ∈ op.operands, r ∈ s.roots)
    (ho : s.Orderly) : (op.perform s).Orderly := by
  by_cases hlooks : op.LooksUp
  · cases op with
    | resolve a n => exact (orderly_resolve hs ho (live_of_mem_roots (h _ List.mem_cons_self)) n).1
    | cachedRead c a =>
        simp only [Operation.operands, List.forall_mem_cons] at h
        exact orderly_cachedRead hs ho (live_of_mem_roots h.2.1) c
    | _ => exact hlooks.elim
  · exact (tidies_perform hs.wellFormed h hlooks).orderly ho

/-- **Every operation keeps activations of their layouts, and layouts claimed.** -/
theorem claims_perform (hs : s.Sound) {op : Operation} (h : ∀ r ∈ op.operands, r ∈ s.roots) :
    s.KeepsClaims (op.perform s) := by
  by_cases hlooks : op.LooksUp
  · obtain ⟨s₁, hfound, hlayouts, hactivations, -⟩ := learns_perform hs h hlooks
    have hsame : s₁.KeepsClaims (op.perform s) :=
      .of_singleton (keepsScopes_of_eq hactivations) fun k => by rw [layout, hlayouts, ← layout]
    rcases hfound with rfl | ⟨l, n, r, hlearns⟩
    · exact hsame
    · exact hlearns.claims.trans hsame
  · exact (tidies_perform hs.wellFormed h hlooks).claims

/-- Guards of results are added, and none is taken away. -/
theorem size_lookups_perform (hs : s.Sound) {op : Operation} (h : ∀ r ∈ op.operands, r ∈ s.roots) :
    s.lookups.size ≤ (op.perform s).lookups.size := by
  by_cases hlooks : op.LooksUp
  · obtain ⟨s₁, hfound, -, -, hlookups⟩ := learns_perform hs h hlooks
    rw [hlookups]
    rcases hfound with rfl | ⟨l, n, r, hlearns⟩
    · exact Nat.le_refl _
    · exact hlearns.size
  · exact (tidies_perform hs.wellFormed h hlooks).size

/-! ## Runs -/

theorem orderly_new (names : List String) : (Store.new names).Orderly := by
  constructor <;> intros <;> simp_all [Layout.memo?, cache, layout, Store.new, default,
    instInhabitedLayout.default, instInhabitedLookupCache.default]

theorem Step.claims (h : s.Step s₁) (hs : s.Sound) : s.KeepsClaims s₁ := by
  cases h with
  | operate op h => exact claims_perform hs h
  | elsewhere h => exact (tidies_of_eq h.layouts h.activations h.lookups h.caches).claims

theorem Step.size_lookups (h : s.Step s₁) (hs : s.Sound) : s.lookups.size ≤ s₁.lookups.size := by
  cases h with
  | operate op h => exact size_lookups_perform hs h
  | elsewhere h => rw [h.lookups]

theorem Run.claims (h : Run s s₁) (hs : s.Sound) : s.KeepsClaims s₁ := by
  induction h with
  | refl => exact .refl s
  | tail hrun hstep ih => exact ih.trans (hstep.claims (Run.progress hrun hs).sound)

/-- What every operation preserves, a run preserves. -/
theorem Run.orderly (h : Run s s₁) (hs : s.Sound) (ho : s.Orderly) : s₁.Orderly := by
  induction h with
  | refl => exact ho
  | tail hrun hstep ih =>
      have hs₁ := (Run.progress hrun hs).sound
      cases hstep with
      | operate op h => exact orderly_perform hs₁ h ih
      | elsewhere h => exact (tidies_of_eq h.layouts h.activations h.lookups h.caches).orderly ih

theorem Reachable.orderly (h : Reachable s) : s.Orderly := by
  obtain ⟨names, hrun⟩ := h
  exact Run.orderly hrun (sound_new names) (orderly_new names)

end Store

end ScopeCall
