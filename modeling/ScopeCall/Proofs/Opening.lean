import ScopeCall.Proofs.Agreeing

/-!
# `ScopeCall.Proofs.Opening` — scopes that are opened

A scope is opened when an activation of a layout is made. The layout is linked to the layout around it, if
it has no parent that is alive; nothing is swept away then, as the link is taken to be the first. A layout
that admits one activation is claimed, and swept if it was claimed before. What is remembered at a layout
with many activations outlives the link that is made under it.

## Contents
- **Entering.** `Store.Opens`: what making an activation leaves as it was.
- **Walks.** `Opens.tends`: from the scopes that were there, and from the new one if its layout was linked
  already.
- **Opening.** `newScope_reliable`, and in `newScope_leaves_stale` a lookup that is left behind.
-/

namespace ScopeCall

namespace Store

variable {s s₁ s₂ : Store} {alive : LayoutId → Prop} {l : LayoutId} {enclosing : Option ActivationId}
  {b : ActivationId} {n : Name}

/-! ## Entering -/

/-- An activation has been made of a layout, or refused. Other layouts say what they said. The layout
    itself does too, unless it has been claimed; nothing is remembered there then, if it was claimed
    before. -/
structure Opens (s s' : Store) (l : LayoutId) (enclosing : Option ActivationId) : Prop where
  retains : s.Retains s'
  old : ∀ b, s.Allocated (.activation b) → s'.activation b = s.activation b
  new : ∀ b, s'.Allocated (.activation b) → ¬ s.Allocated (.activation b) →
    s'.layoutOf b = l ∧ (s'.activation b).enclosing = enclosing
  kind : ∀ k, (s'.layout k).kind = (s.layout k).kind
  others : ∀ k n, k ≠ l → s'.view k n = s.view k n
  claimed : ∀ k c, (s'.layout k).singleton = some c →
    (s.layout k).singleton = some c ∨ (s.layout k).kind.isSingleton = true
  here : (∀ n, s'.view l n = s.view l n)
      ∧ ((s.layout l).kind.isSingleton = true → s'.activations = s.activations)
    ∨ (s.layout l).kind.isSingleton = true
      ∧ (∃ a, (s'.layout l).singleton = some a ∧ ¬ s.Allocated (.activation a))
      ∧ ((s.layout l).singleton = none ∨ ∀ n, (s'.layout l).memo? n = none)

/-- Nothing is made. -/
theorem opens_refused (hlayouts : s₁.layouts = s.layouts) (hactivations : s₁.activations = s.activations)
    (hstables : s₁.stables = s.stables) (hlookups : s₁.lookups = s.lookups)
    (hcaches : s₁.caches = s.caches) : s.Opens s₁ l enclosing := by
  have hlayout : s₁.layout = s.layout := by
    unfold layout
    rw [hlayouts]
  have hview : ∀ k n, s₁.view k n = s.view k n := fun k n =>
    view_of_layout n (by rw [hlayout]) (by rw [hlayout]) (by unfold stable; rw [hstables])
  exact {
    retains := .of_eq (fun k hk => by simpa only [Allocated, hlayouts] using hk)
      (fun k n => by rw [hlayout]) hlookups hcaches
    old b _ := by rw [activation, hactivations, ← activation]
    new b hb hnot := absurd (by simpa only [Allocated, hactivations] using hb) hnot
    kind k := by rw [hlayout]
    others k n _ := hview k n
    claimed k c hc := Or.inl (by rwa [hlayout] at hc)
    here := Or.inl ⟨hview l, fun _ => hactivations⟩ }

/-- The activations after one has been made. -/
theorem opens_activations (l : LayoutId) (enclosing : Option ActivationId) (depth : Nat)
    (h : s₁.activations = (s.joined l enclosing depth).activations) :
    (∀ b, s.Allocated (.activation b) → s₁.activation b = s.activation b)
      ∧ ∀ b, s₁.Allocated (.activation b) → ¬ s.Allocated (.activation b) →
        s₁.layoutOf b = l ∧ (s₁.activation b).enclosing = enclosing := by
  have hact : ∀ b, s₁.activation b
      = if b.index = s.activations.size then s.entrant l enclosing depth else s.activation b :=
    fun b => by rw [activation, h, ← activation, activation_joined]
  constructor
  · intro b hb
    rw [hact, if_neg (Nat.ne_of_lt hb)]
  · intro b hb hnot
    have hnew : b.index = s.activations.size := by
      by_contra hne
      have hjoined : (s.joined l enclosing depth).Allocated (.activation b) := by
        simpa only [Allocated, h] using hb
      exact hnot (allocated_joined hjoined hne)
    rw [layoutOf, hact, if_pos hnew]
    exact ⟨rfl, rfl⟩

/-- What a layout says changes only where it is claimed. -/
theorem view_claimed (depth : Nat) (hl : s.Allocated (.layout l)) {k : LayoutId} (hk : k ≠ l)
    (n : Name) : (s.claimed l enclosing depth).view k n = s.view k n := by
  have hlayout : (s.claimed l enclosing depth).layout k = s.layout k := by
    rw [layout_claimed enclosing depth hl, if_neg hk]
  exact view_of_layout n (by rw [hlayout]) (by rw [hlayout]) rfl

theorem retains_claimed (s : Store) (l : LayoutId) (enclosing : Option ActivationId) (depth : Nat) :
    s.Retains (s.claimed l enclosing depth) :=
  .of_eq (fun _ hk => (Leads.allocated_modifyLayout _ _ _ _).2 hk)
    (fun k n => layout_modifyLayout_congr _ (Layout.memo? · n) l k _ rfl) rfl rfl

/-- After everything has been forgotten at a layout, nothing is remembered there. -/
theorem memo_invalidateAll (hs : s.WellFormed) (hl : s.Allocated (.layout l)) (n : Name) :
    ((s.invalidateAll l).layout l).memo? n = none := by
  obtain ⟨R, hsweeps, hR⟩ := sweep_from forgetting_forgetAll hs hl
  unfold invalidateAll
  rw [hsweeps.visited l hR]
  rfl

/-- The activation that a claimed layout names is the new one. -/
theorem singleton_claimed (depth : Nat) (hl : s.Allocated (.layout l)) (k : LayoutId) :
    ((s.claimed l enclosing depth).layout k).singleton
      = if k = l then some ⟨s.activations.size⟩ else (s.layout k).singleton := by
  rw [layout_claimed enclosing depth hl]
  split <;> rfl

theorem claimed_of_singleton_claimed (depth : Nat) (hl : s.Allocated (.layout l))
    (hk : (s.layout l).kind.isSingleton = true) {k : LayoutId} {c : ActivationId}
    (hc : ((s.claimed l enclosing depth).layout k).singleton = some c) :
    (s.layout k).singleton = some c ∨ (s.layout k).kind.isSingleton = true := by
  rw [singleton_claimed depth hl] at hc
  split at hc
  · rename_i hkl
    exact Or.inr (hkl ▸ hk)
  · exact Or.inl hc

/-- A layout that is claimed anew: its slots are emptied, and it is swept. -/
theorem opens_reclaimed (hs : s.Sound) (hl : s.Live (.layout l))
    (he : ∀ b, enclosing = some b → s.Live (.activation b)) (depth : Nat)
    (hk : (s.layout l).kind.isSingleton = true)
    (hfree : ¬ (s.singletonActivation l).isSome = true) :
    s.Opens ((s.reclaimed l enclosing depth).invalidateAll l) l enclosing := by
  have hl' := hl.allocated hs.wellFormed
  obtain ⟨hadv, htouch, -⟩ := advances_reclaimed depth hs hl he fun b => hs.layoutOf_ne hk hfree
  have hrwf := hadv.leads.wellFormed hs.wellFormed
  have hcwf := (onward_claimed depth hl he).leads.wellFormed hs.wellFormed
  have hrl := hadv.leads.grows _ hl'
  have hgrows : ∀ k, (s.claimed l enclosing depth).Allocated (.layout k) →
      (s.reclaimed l enclosing depth).Allocated (.layout k) := fun k hk =>
    hadv.leads.grows _ ((Leads.allocated_modifyLayout _ _ _ _).1 hk)
  have hforgot := retains_sweep forgetting_forgetAll hrwf hrl
  rw [← invalidateAll] at hforgot
  have hnone := memo_invalidateAll hrwf hrl
  have hsw := (s.reclaimed l enclosing depth).swept_invalidateAll l
  generalize s.reclaimed l enclosing depth = s₁ at *
  have hpart : ∀ {α : Type} (part : Layout → α), (∀ x : Layout, part x.bare = part x) → ∀ k,
      part (s₁.layout k) = part ((s.claimed l enclosing depth).layout k) := fun part hp k => by
    rw [← hp, htouch.layout, hp]
  have hretains : (s.claimed l enclosing depth).Retains s₁ :=
    .of_eq hgrows (fun k n => hpart (Layout.memo? · n) (fun _ => rfl) k) htouch.lookups htouch.caches
  have hsingleton : ∀ k, ((s₁.invalidateAll l).layout k).singleton
      = ((s.claimed l enclosing depth).layout k).singleton := fun k =>
    (hsw.layout k).singleton.trans (hpart Layout.singleton (fun _ => rfl) k)
  have hactivations : (s₁.invalidateAll l).activations = (s.joined l enclosing depth).activations := by
    rw [hsw.eq]
    exact htouch.activations
  obtain ⟨hold, hnew⟩ := opens_activations l enclosing depth hactivations
  exact {
    retains := ((s.retains_claimed l enclosing depth).trans hretains).trans hforgot
    old := hold
    new := hnew
    kind k := by rw [(hsw.layout k).kind, hpart Layout.kind fun _ => rfl, kind_claimed]
    others k n hkl := by rw [hsw.view, htouch.view hcwf hkl, view_claimed depth hl' hkl]
    claimed k c hc := by
      rw [hsingleton] at hc
      exact claimed_of_singleton_claimed depth hl' hk hc
    here := by
      refine Or.inr ⟨hk, ⟨⟨s.activations.size⟩, ?_, Nat.lt_irrefl _⟩, Or.inr hnone⟩
      rw [hsingleton, singleton_claimed depth hl', if_pos rfl] }

theorem opens_enter (hs : s.Sound) (hl : Ref.layout l ∈ s.roots)
    (he : ∀ b, enclosing = some b → Ref.activation b ∈ s.roots) (depth : Nat) :
    s.Opens ((enter l enclosing depth).run.run s).2 l enclosing := by
  have hl' := hs.wellFormed.roots _ hl
  rw [enter_run]
  by_cases hk : (s.layout l).kind.isSingleton = true
  · rw [if_pos hk]
    split
    · exact opens_refused rfl rfl rfl rfl rfl
    · rename_i hfree
      dsimp only
      split
      · exact opens_reclaimed hs (live_of_mem_roots hl) (fun b hb => live_of_mem_roots (he b hb)) depth
          hk hfree
      · rename_i hfirst
        have hactivations : (s.claimed l enclosing depth).activations
            = (s.joined l enclosing depth).activations := rfl
        obtain ⟨hold, hnew⟩ := opens_activations l enclosing depth hactivations
        exact {
          retains := s.retains_claimed l enclosing depth
          old := hold
          new := hnew
          kind := kind_claimed
          others k n hkl := view_claimed depth hl' hkl n
          claimed k c hc := claimed_of_singleton_claimed depth hl' hk hc
          here := by
            refine Or.inr ⟨hk, ⟨⟨s.activations.size⟩, ?_, Nat.lt_irrefl _⟩, Or.inl ?_⟩
            · rw [singleton_claimed depth hl', if_pos rfl]
            · simpa using hfirst }
  · rw [if_neg hk]
    obtain ⟨hold, hnew⟩ :=
      opens_activations l enclosing depth (Eq.refl (s.joined l enclosing depth).activations)
    exact {
      retains := .of_eq (fun _ => id) (fun _ _ => rfl) rfl rfl
      old := hold
      new := hnew
      kind _ := rfl
      others _ _ _ := rfl
      claimed _ _ hc := Or.inl hc
      here := Or.inl ⟨fun _ => rfl, fun hc => absurd hc hk⟩ }

/-- A link that is made before changes nothing of this. -/
theorem Opens.of_rewires (h : s₁.Opens s₂ l enclosing) (hw : s.Rewires s₁)
    (hact : s₁.activations = s.activations) : s.Opens s₂ l enclosing := by
  have hkind : ∀ k, (s₁.layout k).kind = (s.layout k).kind := fun k => by rw [hw.layout]
  have hsingleton : ∀ k, (s₁.layout k).singleton = (s.layout k).singleton := fun k => by rw [hw.layout]
  exact {
    retains := hw.retains.trans h.retains
    old b hb := by rw [h.old b ((hw.allocated_activation b).2 hb), activation, hact, ← activation]
    new b hb hnot := h.new b hb fun hc => hnot ((hw.allocated_activation b).1 hc)
    kind k := by rw [h.kind, hkind]
    others k n hk := by rw [h.others k n hk, hw.view]
    claimed k c hc := by
      rw [← hkind, ← hsingleton]
      exact h.claimed k c hc
    here := by
      have hhere := h.here
      simp only [hkind, hsingleton, hw.view, hw.allocated_activation, hact] at hhere
      exact hhere }

theorem opens_newScope (hs : s.Sound) (hl : Ref.layout l ∈ s.roots)
    (he : ∀ b, enclosing = some b → Ref.activation b ∈ s.roots) (depth : Nat) :
    s.Opens ((newScope l enclosing depth).run.run s).2 l enclosing := by
  rw [newScope_run]
  split
  · exact opens_enter hs hl he depth
  · rw [initializeEnclosing_run]
    cases hparent : s.parent l with
    | none =>
        cases hpe : enclosing.map s.layoutOf with
        | none => exact opens_enter hs hl he depth
        | some p =>
            obtain ⟨e, rfl, rfl⟩ := Option.map_eq_some_iff.1 hpe
            have hp := hs.wellFormed.layoutOf (he e rfl)
            have hlink := ((Spares.refl s).linked (hs.wellFormed.roots _ hl) hp).advances hs
            exact (opens_enter (hlink.sound hs) (hlink.mem_roots hl) (hlink.mem_roots_activation he)
              depth).of_rewires (s.rewires_linked l _) rfl
    | some q =>
        dsimp only
        by_cases hsame : some q = enclosing.map s.layoutOf
        · rw [if_pos hsame]
          exact opens_enter hs hl he depth
        · rw [if_neg hsame]
          exact opens_refused rfl rfl rfl rfl rfl

/-! ## Walks -/

section Opened

variable (h : s.Opens s₁ l enclosing)
include h

theorem Opens.layoutOf (hb : s.Allocated (.activation b)) : s₁.layoutOf b = s.layoutOf b := by
  unfold Store.layoutOf
  rw [h.old b hb]

/-- A new scope is opened in one that was there. -/
theorem Opens.allocated_enclosing (hs : s.WellFormed)
    (he : ∀ e, enclosing = some e → s.Allocated (.activation e)) (b e : ActivationId)
    (hbe : (s₁.activation b).enclosing = some e) : s.Allocated (.activation e) := by
  by_cases hb : s.Allocated (.activation b)
  · rw [h.old b hb] at hbe
    exact hs.activation_enclosing hb hbe
  · by_cases hb₁ : s₁.Allocated (.activation b)
    · rw [(h.new b hb₁ hb).2] at hbe
      exact he e hbe
    · rw [activation, Array.getElem?_eq_none (Nat.not_lt.1 hb₁)] at hbe
      simp [instInhabitedActivation.default, default] at hbe

/-- The layout of a scope from which a walk can start says what it said. -/
theorem Opens.view (hs₁ : s₁.Sound) (hb : s₁.Live (.activation b))
    (hold : s.Allocated (.activation b) ∨ (s.layout l).kind.isSingleton = false) :
    s₁.view (s₁.layoutOf b) n = s.view (s₁.layoutOf b) n := by
  by_cases hk : s₁.layoutOf b = l
  · rcases h.here with ⟨hsame, -⟩ | ⟨hkind, ⟨a, ha, hnew⟩, -⟩
    · rw [hk]
      exact hsame n
    · -- The layout names the new activation, so no other of it is alive.
      have hown := hs₁.bindings.unique b hb (by rw [hk, h.kind, hkind])
      rw [hk, ha] at hown
      obtain rfl := Option.some.inj hown
      rcases hold with hold | hshared
      · exact absurd hold hnew
      · rw [hshared] at hkind
        exact absurd hkind Bool.false_ne_true
  · exact h.others _ n hk

/-- **Walks tend to what they came to**, from a scope that was there, and from a new one if its layout
    was linked already and is shared. -/
theorem Opens.tends (hs : s.Sound) (hs₁ : s₁.Sound) (hn : s.Nested)
    (he : ∀ e, enclosing = some e → s.Allocated (.activation e))
    (hback : ∀ b, s₁.Live (.activation b) → s.Allocated (.activation b) → s.Live (.activation b))
    (f : Finding) : s₁.Tends n f fun b => s.Trace (fun _ _ => False) n (s₁.layoutOf b) f
      ∧ (s.Allocated (.activation b) ∨ (s.layout l).enclosing = enclosing.map s.layoutOf
        ∧ (s.layout l).kind.isSingleton = false) := by
  rintro b hb ⟨ht, hstart⟩
  rw [h.view hs₁ hb (hstart.imp_right And.right)]
  have hlink : (s.layout (s₁.layoutOf b)).enclosing = (s₁.activation b).enclosing.map s.layoutOf := by
    by_cases hold : s.Allocated (.activation b)
    · rw [h.layoutOf hold, h.old b hold]
      exact hn.along b (hs.current (hback b hb hold))
    · obtain ⟨hlayout, hnew⟩ := h.new b (hb.allocated hs₁.wellFormed) hold
      rw [hlayout, hnew]
      exact (hstart.resolve_left hold).1
  have hallocated := h.allocated_enclosing hs.wellFormed he b
  cases ht with
  | pending _ hp => exact hp.elim
  | stop _ hv => exact Or.inl hv
  | root _ hv henc =>
      have hnone : (s₁.activation b).enclosing = none :=
        Option.map_eq_none_iff.1 (hlink.symm.trans henc)
      refine Or.inr ⟨hv, ?_⟩
      rw [hnone]
  | up _ hv henc ht =>
      obtain ⟨e, hbe, hlayout⟩ := Option.map_eq_some_iff.1 (hlink.symm.trans henc)
      subst hlayout
      refine Or.inr ⟨hv, ?_⟩
      rw [hbe]
      have hin := hallocated e hbe
      exact ⟨h.layoutOf hin ▸ ht, Or.inl hin⟩

/-- **What is still remembered is reliable from a scope that was there**, and from a new one if its layout
    was linked already or is claimed, or nothing could be trusted there. -/
theorem Opens.reliableAt (hret : s.Retraces alive fun _ _ => False) (hs : s.Sound) (hs₁ : s₁.Sound)
    (hvalid : ∀ t, s.Allocated (.stable t) → s₁.stableValid t = true → s.stableValid t = true)
    (he : ∀ e, enclosing = some e → s.Allocated (.activation e))
    (hback : ∀ b, s₁.Live (.activation b) → s.Allocated (.activation b) → s.Live (.activation b))
    (hb : s₁.Live (.activation b)) (hal : alive (s₁.layoutOf b))
    (hcovered : s.Allocated (.activation b) ∨ (s.layout l).enclosing = enclosing.map s.layoutOf
      ∨ (s.layout l).kind.isSingleton = true
      ∨ ∀ r, (s.layout l).memo? n = some r → s.resultValid r = false) : s₁.ReliableAt b n := by
  have hclaimed : ∀ k c, (s₁.layout k).singleton = some c →
      (s₁.layout k).kind.isSingleton = true := fun k c hc => by
    rw [h.kind]
    exact (h.claimed k c hc).elim (hret.claimed k c) id
  have hacyclic : ∀ c, ¬ s₁.Inside c c := by
    refine acyclic_of_extended (fun c hc => ?_) (h.allocated_enclosing hs.wellFormed he) hret.acyclic
    rw [h.old c hc]
  refine hret.reliableAt hs.wellFormed h.retains hvalid hal fun r hr hv ht => ?_
  refine says_of_tends hs₁ hclaimed hacyclic (h.tends hs hs₁ hret.toNested he hback _) hb ⟨ht, ?_⟩
    (Nat.lt_succ_of_le (s₁.height_le b))
  by_cases hold : s.Allocated (.activation b)
  · exact Or.inl hold
  · obtain ⟨hlayout, -⟩ := h.new b (hb.allocated hs₁.wellFormed) hold
    rw [hlayout] at hr ht
    by_cases hk : (s.layout l).kind.isSingleton = true
    · -- A layout that had been walked through was claimed, so nothing is remembered there now.
      obtain ⟨c, hc, hcl⟩ := hret.walked l n ht.recorded
      rcases h.here with ⟨-, hsame⟩ | ⟨-, -, hnone | hnone⟩
      · refine absurd ?_ hold
        simpa only [Allocated, hsame hk] using hb.allocated hs₁.wellFormed
      · have hnamed := hc.named
        rw [hcl, hnone] at hnamed
        exact absurd (hnamed hk) (by simp)
      · rw [hnone] at hr
        exact absurd hr (by simp)
    · rcases hcovered with hc | hlinked | hc | hinvalid
      · exact absurd hc hold
      · exact Or.inr ⟨hlinked, Bool.eq_false_iff.2 hk⟩
      · exact absurd hc hk
      · have hr₀ := h.retains.memo l n r hr
        have htrue := h.retains.resultValid hret hs.wellFormed hvalid hr₀ hv
        exact absurd (htrue.symm.trans (hinvalid r hr₀)) (by simp)

end Opened

/-! ## Opening -/

theorem fresh_enter {depth : Nat} {a : ActivationId}
    (h : ((enter l enclosing depth).run.run s).1 = .ok a) : ¬ s.Allocated (.activation a) := by
  have hnew : ¬ s.Allocated (.activation ⟨s.activations.size⟩) := Nat.lt_irrefl _
  rw [enter_run] at h
  split at h
  · split at h
    · simp at h
    · obtain rfl := Except.ok.inj h
      exact hnew
  · obtain rfl := Except.ok.inj h
    exact hnew

/-- An activation that is made was not there. -/
theorem fresh_newScope {depth : Nat} {a : ActivationId}
    (h : ((newScope l enclosing depth).run.run s).1 = .ok a) : ¬ s.Allocated (.activation a) := by
  rw [newScope_run] at h
  split at h
  · exact fresh_enter h
  · rw [initializeEnclosing_run] at h
    cases hparent : s.parent l with
    | none =>
        cases hpe : enclosing.map s.layoutOf with
        | none =>
            simp only [hparent, hpe] at h
            exact fresh_enter h
        | some p =>
            simp only [hparent, hpe] at h
            exact fresh_enter (s := s.linked l p) h
    | some q =>
        simp only [hparent] at h
        by_cases hsame : some q = enclosing.map s.layoutOf
        · rw [if_pos hsame] at h
          exact fresh_enter h
        · rw [if_neg hsame] at h
          simp at h

/-- The activations alive that were there before are those that were alive. -/
theorem live_of_opened (hs : s.Sound) (hl : Ref.layout l ∈ s.roots)
    (he : ∀ b, enclosing = some b → Ref.activation b ∈ s.roots) (depth : Nat)
    (hb : ((Operation.newScope l enclosing depth).perform s).Live (.activation b))
    (hold : s.Allocated (.activation b)) : s.Live (.activation b) := by
  obtain ⟨hadv, hready⟩ := advances_newScope hs hl he depth
  have hfresh : ∀ a, ((newScope l enclosing depth).run.run s).1 = .ok a → ¬ s.Allocated (.activation a) :=
    fun a => fresh_newScope
  rw [Operation.perform] at hb
  generalize (newScope l enclosing depth).run.run s = result at *
  rcases result with ⟨e | a, s₁⟩
  · exact hadv.leads.live hb hold
  · rcases live_of_live_acquire (hready a rfl).refs hb with heq | hb
    · obtain rfl := Ref.activation.inj heq
      exact absurd hold (hfresh b rfl)
    · exact hadv.leads.live hb hold

theorem Opens.acquire (h : s.Opens s₁ l enclosing) (rs : List Ref) :
    s.Opens (s₁.acquire rs) l enclosing :=
  ⟨h.retains.trans (.of_eq (fun _ => id) (fun _ _ => rfl) rfl rfl), h.old, h.new, h.kind, h.others,
    h.claimed, h.here⟩

theorem opens_perform (hs : s.Sound) (hl : Ref.layout l ∈ s.roots)
    (he : ∀ b, enclosing = some b → Ref.activation b ∈ s.roots) (depth : Nat) :
    s.Opens ((Operation.newScope l enclosing depth).perform s) l enclosing := by
  have hopens := opens_newScope hs hl he depth
  rw [Operation.perform]
  generalize (newScope l enclosing depth).run.run s = result at *
  rcases result with ⟨e | a, s₁⟩
  · exact hopens
  · exact hopens.acquire _

/-- **Opening a scope leaves no stale lookup that the new link could not have changed.** After an
    activation has been made, what is remembered agrees with the dynamic walk from each live activation
    that was there before; from the new one too, if its layout was linked just so already, admits one
    activation, or remembered nothing for the name that could be trusted. Layouts may have died since
    scopes were moved. -/
theorem newScope_reliable {s₀ : Store} (h : Moving s₀) (hdrop : s₀.Elsewhere s)
    (hl : Ref.layout l ∈ s.roots) (he : ∀ b, enclosing = some b → Ref.activation b ∈ s.roots)
    (depth : Nat) : ∀ b n, ((Operation.newScope l enclosing depth).perform s).Live (.activation b) →
      (s.Allocated (.activation b) ∨ s.isEnclosedBy l (enclosing.map s.layoutOf) = true
        ∨ (s.layout l).kind.isSingleton = true
        ∨ ∀ r, (s.layout l).memo? n = some r → s.resultValid r = false) →
      ((Operation.newScope l enclosing depth).perform s).ReliableAt b n := by
  intro b n hb hcovered
  obtain ⟨hs₀, hrec⟩ := h.recalls
  have hs := (hdrop.progress hs₀).sound
  have hret := (hrec.same hs₀.wellFormed hdrop.layouts hdrop.activations hdrop.stables hdrop.lookups
    hdrop.caches).toRetraces
  have hprogress : s.Progress ((Operation.newScope l enclosing depth).perform s) := progress_perform hs (by
    simp only [Operation.operands, List.forall_mem_cons, List.forall_mem_map]
    exact ⟨hl, fun c hc => he c (by simpa using hc)⟩)
  have hopens := opens_perform hs hl he depth
  have hback := fun b => live_of_opened (b := b) hs hl he depth
  generalize (Operation.newScope l enclosing depth).perform s = s₁ at *
  have hlive₀ : ∀ k, s.Live (.layout k) → s₀.Live (.layout k) := fun k hk => by
    refine hdrop.leads.live hk ?_
    have hk := hk.allocated hs.wellFormed
    simpa only [Allocated, hdrop.layouts] using hk
  refine hopens.reliableAt hret hs hprogress.sound (fun t ht hv => ?_) (fun e hin =>
    hs.wellFormed.roots _ (he e hin)) hback hb (hlive₀ _ ?_) ?_
  · by_contra hf
    have hfallen := hprogress.later.fallen t ht (Bool.eq_false_iff.2 hf)
    rw [hv] at hfallen
    exact Bool.noConfusion hfallen
  · by_cases hold : s.Allocated (.activation b)
    · rw [hopens.layoutOf hold]
      exact (hback b hb hold).layoutOf hs.wellFormed
    · rw [(hopens.new b (hb.allocated hprogress.sound.wellFormed) hold).1]
      exact live_of_mem_roots hl
  · simpa only [isEnclosedBy, decide_eq_true_eq] using hcovered

/-- A module that is opened again, in another: its layout is linked for the first time then, and what was
    remembered there is forgotten. -/
theorem reliable_of_reopened :
    let ops : List Operation := [.newLayout "m" .singleton {}, .newScope ⟨0⟩ none 0, .newCache ⟨2⟩,
      .cachedRead ⟨0⟩ ⟨0⟩, .newLayout "g" .singleton {}, .newScope ⟨1⟩ none 0,
      .define ⟨1⟩ ⟨2⟩ (.int 1)]
    let s := (ops.foldl Operation.perform (.new ["x"])).release [.activation ⟨0⟩]
    let s₁ := (Operation.newScope ⟨0⟩ (some ⟨1⟩) 0).perform s
    (s.cache ⟨0⟩).cached = some (⟨0⟩, .unbound ⟨0⟩) ∧ s₁.lookupDynamic ⟨2⟩ ⟨2⟩ = some (.int 1)
      ∧ s₁.ReliableAt ⟨2⟩ ⟨2⟩ := by
  intro ops s s₁
  have hmoving : Moving (ops.foldl Operation.perform (.new ["x"])) :=
    ⟨["x"], .of_allLexical (by decide +kernel)⟩
  have hlive : s₁.Live (.activation ⟨2⟩) := live_of_mem_roots (by decide +kernel)
  refine ⟨by decide +kernel, by decide +kernel, newScope_reliable hmoving (elsewhere_release _ _)
    (by decide +kernel) ?_ 0 ⟨2⟩ ⟨2⟩ hlive (Or.inr (Or.inr (Or.inl (by decide +kernel))))⟩
  rintro b ⟨⟩
  decide +kernel

/-- A function whose layout is linked only when it is called a second time: that nothing was found the
    first time is still remembered. -/
theorem newScope_leaves_stale : ¬ ∀ s l enclosing, Reachable s → s.Reliable →
    Ref.layout l ∈ s.roots → (∀ b, enclosing = some b → Ref.activation b ∈ s.roots) →
    (∃ a, ((newScope l enclosing 0).run.run s).1 = .ok a) →
    ((Operation.newScope l enclosing 0).perform s).Reliable := by
  intro h
  have hmoving : Moving ([.newLayout "f" .function {}, .newScope ⟨0⟩ none 0, .newCache ⟨2⟩,
      .cachedRead ⟨0⟩ ⟨0⟩, .newLayout "g" .singleton {}, .newScope ⟨1⟩ none 0,
      .define ⟨1⟩ ⟨2⟩ (.int 1)].foldl Operation.perform (.new ["x"])) :=
    ⟨["x"], .of_allLexical (by decide +kernel)⟩
  have hreliable := h _ ⟨0⟩ (some ⟨1⟩) hmoving.reachable hmoving.reliable (by decide +kernel)
    (by rintro b ⟨⟩; decide +kernel) ⟨⟨2⟩, by decide +kernel⟩
  refine not_reliable_of_cached (a := ⟨2⟩) (c := ⟨0⟩) (r := .unbound ⟨0⟩)
    (live_of_mem_roots ?_) ?_ ?_ hreliable
  all_goals decide +kernel

end Store

end ScopeCall
