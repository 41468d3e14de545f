import ScopeCall.Proofs.Closing

/-!
# `ScopeCall.Proofs.Mirroring` — children mirror links

An invalidation goes from a layout to its children, and is meant for the layouts nested in it. So the children
that a layout lists have to be those that are linked to it: no other, and none twice. Operations keep it so as
long as no layout is made its own parent, and each scope that is inserted is free: it has no parent yet, or
the one that it is inserted below. A scope that is inserted while it is nested elsewhere stays a child there.

## Contents
- **Mirrors.** `Store.Mirrored`: links and children agree. Each change keeps it.
- **Runs.** `Store.TreeStep`, and `Treelike.mirrored`.
- **Invalidation.** `Store.Visits`, and `Mirrored.visits`: a sweep stays in what is nested where it starts.
- **Children.** `children_mirror_links`, and `attach_leaves_child`.
-/

namespace ScopeCall

namespace Store

variable {s s₁ s₂ : Store} {l p : LayoutId}

/-! ## Mirrors -/

/-- A child has the layout as its parent. -/
def Justified (s : Store) : Prop :=
  ∀ p, s.Live (.layout p) → ∀ c ∈ (s.layout p).children, (s.layout c).enclosing = some p

/-- Children and links agree. -/
structure Mirrored (s : Store) : Prop where
  registered : s.Registered
  justified : s.Justified
  once : s.ListsOnce
  loopless : s.Loopless

section Changes

variable {inserts : LayoutId → LayoutId → Prop}

theorem ListsOnce.rehangs (h : s.ListsOnce) (hr : Rehangs inserts s s₁) : s₁.ListsOnce := by
  cases hr with
  | stay _ hchildren => exact h.of_children hchildren
  | hang _ _ _ _ honce => exact honce h
  | insert _ _ _ _ _ _ _ _ honce => exact honce h
  | remove _ _ _ _ _ honce => exact honce h

/-- **A change leaves no child behind**, if what is inserted is free. -/
theorem Justified.rehangs (h : s.Justified) (hr : Rehangs inserts s s₁) (hs : s.WellFormed)
    (hs₁ : s₁.WellFormed)
    (hback : ∀ p, s₁.Live (.layout p) → s.Allocated (.layout p) → s.Live (.layout p))
    (hloop : s.Loopless) (hloop₁ : s₁.Loopless)
    (hfree : ∀ l i, inserts l i → ∀ q, s.parent i = some q → s.parent l = some q) : s₁.Justified := by
  intro p hp c hc
  -- A child of old is linked, and its parent is alive.
  have hold : c ∈ (s.layout p).children → (s.layout c).enclosing = some p ∧ s.parent c = some p := fun hin =>
    have hlive := hback p hp (allocated_of_mem_children hin)
    have hlink := h p hlive c hin
    ⟨hlink, (parent_eq_some_iff hs).2 ⟨hlink, hlive⟩⟩
  cases hr with
  | stay henclosing hchildren =>
      rw [hchildren] at hc
      rw [henclosing]
      exact (hold hc).1
  | hang l parent henclosing hchildren _ =>
      rw [henclosing]
      rcases (hchildren p (hback p hp) hp c).1 hc with ⟨hin, hne⟩ | ⟨hlink, rfl⟩
      · have hcl : c ≠ l := by
          rintro rfl
          exact hne ⟨(hold hin).1, rfl⟩
        rw [if_neg hcl]
        exact (hold hin).1
      · rw [if_pos rfl]
        exact hlink
  | insert l i old hinserts hparent hlive henclosing hchildren _ =>
      have hil : i ≠ l := by
        rintro rfl
        exact hloop₁.ne hs₁ i ((parent_eq_some_iff hs₁).2 ⟨(henclosing i).trans (if_pos rfl), hlive⟩)
      rw [henclosing]
      rcases (hchildren p c).1 hc with ⟨hin, hne⟩ | ⟨rfl, rfl⟩
      · by_cases hcl : c = l
        · subst hcl
          rw [if_pos rfl]
          rcases hin with hin | ⟨rfl, -⟩
          · have hpo : p = old := Option.some.inj ((hold hin).2.symm.trans hparent)
            exact absurd ⟨hpo, rfl⟩ hne
          · rfl
        · rw [if_neg hcl]
          obtain ⟨hlink, hup⟩ := hold (hin.resolve_right fun h => hcl h.2)
          split
          · rename_i hci
            subst hci
            exact hparent.symm.trans (hfree l c hinserts p hup)
          · exact hlink
      · rw [if_neg hil, if_pos rfl]
  | remove l old hparent henclosing hchildren _ =>
      have hlo : l ≠ old := by
        rintro rfl
        exact hloop.ne hs l hparent
      rw [henclosing]
      rcases (hchildren p c).1 hc with ⟨⟨hin, hnl⟩, hno⟩ | ⟨hlink, rfl⟩
      · have hco : c ≠ old := by
          rintro rfl
          exact hno ⟨(hold hin).2, rfl⟩
        have hcl : c ≠ l := by
          rintro rfl
          exact hnl ⟨Option.some.inj ((hold hin).2.symm.trans hparent), rfl⟩
        rw [if_neg hco, if_neg hcl]
        exact (hold hin).1
      · rw [if_neg hlo, if_pos rfl]
        exact hlink

theorem Mirrored.rehangs (h : s.Mirrored) (hr : Rehangs inserts s s₁) (hs : s.WellFormed) (hs₁ : s₁.WellFormed)
    (hback : ∀ p, s₁.Live (.layout p) → s.Allocated (.layout p) → s.Live (.layout p))
    (hloop : s₁.Loopless) (hfree : ∀ l i, inserts l i → ∀ q, s.parent i = some q → s.parent l = some q) :
    s₁.Mirrored :=
  ⟨h.registered.rehangs hr hs hs₁ hback hloop,
    h.justified.rehangs hr hs hs₁ hback h.loopless hloop hfree, h.once.rehangs hr, hloop⟩

end Changes

/-- A new store has nothing to mirror. -/
theorem mirrored_new (names : List String) : (Store.new names).Mirrored := by
  refine ⟨registered_new names, fun p hp => ?_, fun k => List.nodup_nil, fun k hk => absurd hk (Nat.not_lt_zero k)⟩
  exact absurd (hp.allocated (sound_new names).wellFormed) (Nat.not_lt_zero _)

/-! ## Runs -/

namespace Operation

/-- What an operation inserts has no parent alive, or the one that it is inserted below. -/
def InsertsFree (s : Store) : Operation → Prop
  | .attach a b => s.parent (s.layoutOf b) = none ∨ s.parent (s.layoutOf b) = s.parent (s.layoutOf a)
  | _           => True

instance (s : Store) : DecidablePred (InsertsFree s) := fun op => by
  cases op <;> first | exact instDecidableTrue | exact instDecidableOr

theorem InsertsFree.parent {op : Operation} (h : op.InsertsFree s) {i : LayoutId} (hi : op.Inserts s l i)
    (hp : s.parent i = some p) : s.parent l = some p := by
  cases op with
  | attach a b =>
      obtain ⟨rfl, rfl⟩ := hi
      rcases h with h | h
      · exact absurd (h.symm.trans hp) (by simp)
      · exact h.symm.trans hp
  | _ => exact hi.elim

end Operation

/-- One step of a program that inserts free scopes only, and makes no layout its own parent. -/
inductive TreeStep (s : Store) : Store → Prop where
  | operate (op : Operation) (h : ∀ r ∈ op.operands, r ∈ s.roots) (hfree : op.InsertsFree s)
    (hloop : (op.perform s).Loopless) : TreeStep s (op.perform s)
  | closure (spec : CallableSpec) (enclosing : ActivationId) (body : BodyId)
    (h : ∀ r ∈ closureOperands spec enclosing, r ∈ s.roots) : TreeStep s (s.closing spec enclosing body)
  | elsewhere {s' : Store} (h : s.Elsewhere s') : TreeStep s s'

/-- A store that such a program can come to. -/
def Treelike (s : Store) : Prop := ∃ names, Relation.ReflTransGen TreeStep (.new names) s

theorem TreeStep.progress (h : s.TreeStep s₁) (hs : s.Sound) : s.Progress s₁ := by
  cases h with
  | operate op h => exact progress_perform hs h
  | closure spec enclosing body h => exact progress_closing hs body h
  | elsewhere h => exact h.progress hs

theorem loopless_closing (hs : s.Sound) {spec : CallableSpec} {enclosing : ActivationId} (body : BodyId)
    (h : ∀ r ∈ closureOperands spec enclosing, r ∈ s.roots) (hloop : s.Loopless) :
    (s.closing spec enclosing body).Loopless := by
  have hprogress := progress_closing hs body h
  have he := live_of_mem_roots (h _ List.mem_cons_self)
  intro k hk hself
  obtain ⟨hlink, hlive⟩ := (parent_eq_some_iff hprogress.sound.wellFormed).1 hself
  rw [(links_closing hs spec he body).1] at hlink
  split at hlink
  · rename_i hnew
    have hlt := (he.layoutOf hs.wellFormed).allocated hs.wellFormed
    rw [Option.some.inj hlink, hnew] at hlt
    exact Nat.lt_irrefl _ hlt
  · exact hloop.ne hs.wellFormed _ (parent_before hs.wellFormed hprogress.back hlink hlive)

theorem Elsewhere.loopless (h : s.Elsewhere s₁) (hs : s.Sound) (hloop : s.Loopless) : s₁.Loopless := by
  have hprogress := h.progress hs
  intro k hk hself
  obtain ⟨hlink, hlive⟩ := (parent_eq_some_iff hprogress.sound.wellFormed).1 hself
  rw [h.layout] at hlink
  exact hloop.ne hs.wellFormed _ (parent_before hs.wellFormed hprogress.back hlink hlive)

/-- **Every step keeps children and links in agreement.** -/
theorem TreeStep.mirrored (h : s.TreeStep s₁) (hs : s.Sound) (hm : s.Mirrored) : s₁.Mirrored := by
  have hprogress := h.progress hs
  have hs₁ := hprogress.sound.wellFormed
  cases h with
  | operate op h hfree hloop =>
      exact hm.rehangs (rehangs_perform hs h) hs.wellFormed hs₁ hprogress.back hloop
        fun l i hi q hq => hfree.parent hi hq
  | closure spec enclosing body h =>
      have hr : Rehangs (fun _ _ => False) s (s.closing spec enclosing body) :=
        rehangs_closing hs spec (live_of_mem_roots (h _ List.mem_cons_self)) body
      exact hm.rehangs hr hs.wellFormed hs₁ hprogress.back (loopless_closing hs body h hm.loopless)
        fun _ _ => False.elim
  | elsewhere h =>
      have hr : Rehangs (fun _ _ => False) s s₁ :=
        .stay (fun k => by rw [h.layout]) fun k => by rw [h.layout]
      exact hm.rehangs hr hs.wellFormed hs₁ hprogress.back (h.loopless hs hm.loopless) fun _ _ => False.elim

/-- What every step keeps, a run keeps. -/
theorem mirrored_of_treeRun (h : Relation.ReflTransGen TreeStep s s₁) (hs : s.Sound) (hm : s.Mirrored) :
    s₁.Sound ∧ s₁.Mirrored := by
  induction h with
  | refl => exact ⟨hs, hm⟩
  | tail _ hstep ih => exact ⟨(hstep.progress ih.1).sound, hstep.mirrored ih.1 ih.2⟩

theorem Treelike.mirrored (h : s.Treelike) : s.Sound ∧ s.Mirrored := by
  obtain ⟨names, hrun⟩ := h
  exact mirrored_of_treeRun hrun (sound_new names) (mirrored_new names)

/-! ## Invalidation -/

/-- `l` is `k`, or encloses it by way of parents that are alive. -/
abbrev NestedIn (s : Store) : LayoutId → LayoutId → Prop :=
  Relation.ReflTransGen fun k p => s.parent k = some p

/-- `s'` comes from `s` by visits, each at a layout in `P`. -/
abbrev Visits (visit : Layout → Visit) (P : LayoutId → Prop) : Store → Store → Prop :=
  Relation.ReflTransGen fun s s' => ∃ k, P k ∧ s' = s.visited visit k

theorem live_of_mem_liveChildren (hs : s.WellFormed) {c : LayoutId} (hc : c ∈ s.liveChildren l) :
    s.Live (.layout c) := by
  have halloc := hs.children (mem_children_of_liveChildren hc)
  unfold liveChildren at hc
  split at hc
  · exact absurd hc List.not_mem_nil
  · exact (contains_iff_live hs halloc).1 (List.mem_filter.1 hc).2

/-- Nothing comes to life when more is held that is alive. -/
theorem Leads.hold (h : s.Leads s₁) {rs : List Ref} (hrs : ∀ r ∈ rs, s.Live r) : s.Leads (s₁.hold rs) := by
  refine h.extend (fun _ => id) (fun r hr => ?_) (fun _ _ => Or.inl) fun _ _ => Or.inl
  have hr : r ∈ (rs ++ s₁.stack) ++ s₁.handles := hr
  rw [List.append_assoc] at hr
  exact (List.mem_append.1 hr).elim (fun hin => Or.inr (Or.inl (hrs r hin))) Or.inl

section Sweep

variable {visit : Layout → Visit} {N : Name → Prop} {P : LayoutId → Prop}

/-- A sweep does not leave a set of live layouts that each child alive of a member belongs to. -/
theorem visits_sweep (hv : Forgetting visit N) (hs : s.WellFormed) (hlive : ∀ k, P k → s.Live (.layout k))
    (hclosed : ∀ k, P k → ∀ c ∈ (s.layout k).children, s.Live (.layout c) → P c) (n : Nat)
    {pending : List LayoutId} (hpending : ∀ k ∈ pending, P k) (hspares : s.Spares s₁) (hsw : s.Swept s₁) :
    Visits visit P s₁ (sweep visit n pending s₁) := by
  induction n generalizing pending s₁ with
  | zero => exact .refl
  | succ n ih =>
      cases pending with
      | nil => exact .refl
      | cons l pending =>
          obtain ⟨hl, hrest⟩ := List.forall_mem_cons.1 hpending
          have hspares₁ := hspares.visited hv.forgot l
          have hsw₁ := hsw.trans (s₁.swept_visited hv.forgot l)
          rw [sweep_cons]
          refine .head ⟨l, hl, rfl⟩ ?_
          split
          · refine ih (fun k hk => ?_) hspares₁ hsw₁
            rcases List.mem_append.1 hk with hk | hk
            · -- A child that counts as alive here was alive when the sweep began.
              have hk := List.mem_reverse.1 hk
              have hpendingLive : ∀ r ∈ (l :: pending).map Ref.layout, s.Live r := fun r hr => by
                obtain ⟨q, hq, rfl⟩ := List.mem_map.1 hr
                exact hlive q (hpending q hq)
              have hheld := hspares₁.leads.hold hpendingLive
              have hchild := mem_children_of_liveChildren hk
              replace hchild : k ∈ ((s₁.visited visit l).layout l).children := hchild
              rw [(hsw₁.layout l).eq] at hchild
              exact hclosed l hl k hchild
                (hheld.live (live_of_mem_liveChildren (hheld.wellFormed hs) hk) (hs.children hchild))
            · exact hrest k hk
          · exact ih hrest hspares₁ hsw₁

/-- Visits leave other layouts as they were. -/
theorem Visits.layout (h : Visits visit P s s₁) {k : LayoutId} (hk : ¬ P k) :
    s₁.layout k = s.layout k := by
  induction h with
  | refl => rfl
  | tail _ hstep ih =>
      obtain ⟨l, hl, rfl⟩ := hstep
      rw [← ih, visited, layout_modifyLayout, if_neg]
      · exact (aside_invalidateEach _ _).layout k
      · rintro ⟨rfl, -⟩
        exact hk hl

/-- **A sweep stays within what is nested in the layout where it starts.** -/
theorem Mirrored.visits (h : s.Mirrored) (hs : s.WellFormed) (hl : s.Live (.layout l))
    (hv : Forgetting visit N) : Visits visit (s.NestedIn · l) s (sweep visit s.sweepBound [l] s) := by
  have hpending : ∀ k ∈ [l], s.Live (.layout k) ∧ s.NestedIn k l := List.forall_mem_singleton.2 ⟨hl, .refl⟩
  have hvisits := visits_sweep (P := fun k => s.Live (.layout k) ∧ s.NestedIn k l) hv hs (fun _ => And.left)
    (fun k hk c hc hlive => ⟨hlive, .head ((parent_eq_some_iff hs).2 ⟨h.justified k hk.1 c hc, hk.1⟩) hk.2⟩)
    s.sweepBound hpending (Spares.refl s) (Swept.refl s)
  exact Relation.ReflTransGen.mono (fun _ _ ⟨k, hk, heq⟩ => ⟨k, hk.2, heq⟩) _ _ hvisits

end Sweep

/-! ## Children -/

theorem TreeStep.of_allFit {ops : List Operation}
    (h : allFit (fun s op => decide (op.InsertsFree s ∧ (op.perform s).Loopless)) s ops = true) :
    Relation.ReflTransGen TreeStep s (ops.foldl Operation.perform s) := by
  refine steps_of_allFit (fun s op hheld hfit => ?_) h
  obtain ⟨hfree, hloop⟩ := of_decide_eq_true hfit
  exact .operate op hheld hfree hloop

/-- **Children mirror links.** As long as each scope that is inserted is free, and no layout is made its own
    parent, the children alive that a layout alive lists are those that have it as their parent, and none is
    listed twice. So a sweep that starts there visits only layouts nested in it, and all others stay as they
    are. -/
theorem children_mirror_links (h : s.Treelike) (hp : s.Live (.layout p)) :
    (∀ c, s.Live (.layout c) → (c ∈ s.liveChildren p ↔ s.parent c = some p))
    ∧ (s.liveChildren p).Nodup
    ∧ (∀ names, Visits (Layout.forgetNames names) (s.NestedIn · p) s (s.invalidateNames p names)
      ∧ ∀ k, ¬ s.NestedIn k p → (s.invalidateNames p names).layout k = s.layout k)
    ∧ Visits Layout.forgetAll (s.NestedIn · p) s (s.invalidateAll p)
    ∧ ∀ k, ¬ s.NestedIn k p → (s.invalidateAll p).layout k = s.layout k := by
  obtain ⟨hs, hm⟩ := h.mirrored
  have hwf := hs.wellFormed
  have hnames := fun names => hm.visits hwf hp (forgetting_forgetNames names)
  have hall := hm.visits hwf hp forgetting_forgetAll
  refine ⟨fun c hc => ⟨fun hin => ?_, fun hlink => ?_⟩, ?_,
    fun names => ⟨hnames names, fun k hk => (hnames names).layout hk⟩, hall, fun k hk => hall.layout hk⟩
  · exact (parent_eq_some_iff hwf).2 ⟨hm.justified p hp c (mem_children_of_liveChildren hin), hp⟩
  · exact mem_liveChildren hwf (hm.registered p hp c (parent_eq_some hlink)) hc
  · unfold liveChildren
    split
    · exact List.nodup_nil
    · exact (hm.once p).filter _

/-- A module that is nested in nothing is inserted between another and the scope around that: it is the one
    child of that scope then. -/
theorem children_of_inserted :
    let ops : List Operation := [.newLayout "g" .singleton {}, .newScope ⟨0⟩ none 0,
      .newLayout "s" .singleton {}, .newScope ⟨1⟩ none 0, .newLayout "m" .singleton {}, .newScope ⟨2⟩ (some ⟨0⟩) 0,
      .attach ⟨2⟩ ⟨1⟩]
    let s := ops.foldl Operation.perform (.new ["x"])
    Treelike s ∧ s.Live (.layout ⟨0⟩) ∧ s.parent ⟨1⟩ = some ⟨0⟩ ∧ ⟨1⟩ ∈ s.liveChildren ⟨0⟩
      ∧ ⟨2⟩ ∉ s.liveChildren ⟨0⟩ := by
  intro ops s
  have htree : Treelike s := ⟨["x"], TreeStep.of_allFit (by decide +kernel)⟩
  have hlive : ∀ k < 3, s.Live (.layout ⟨k⟩) := fun k hk =>
    live_of_mem_roots (by revert k; decide +kernel)
  obtain ⟨hmirror, -⟩ := children_mirror_links htree (hlive 0 (by decide))
  have hlink : s.parent ⟨1⟩ = some ⟨0⟩ := by decide +kernel
  refine ⟨htree, hlive 0 (by decide), hlink, (hmirror ⟨1⟩ (hlive 1 (by decide))).2 hlink, fun hin => ?_⟩
  exact absurd ((hmirror ⟨2⟩ (hlive 2 (by decide))).1 hin) (by decide +kernel)

/-- **A child is left behind**: a module that is nested in `h` is inserted between another and `g`. It is nested
    in `g` from then on, and yet it is still listed as a child of `h`. So a sweep that starts at `h` goes on to
    it, and forgets what was looked up from the module below it, though nothing is nested in `h`. -/
theorem attach_leaves_child :
    let ops : List Operation := [.newLayout "g" .singleton {}, .newScope ⟨0⟩ none 0,
      .newLayout "h" .singleton {}, .newScope ⟨1⟩ none 0, .newLayout "s" .singleton {}, .newScope ⟨2⟩ (some ⟨1⟩) 0,
      .newLayout "m" .singleton {}, .newScope ⟨3⟩ (some ⟨0⟩) 0, .attach ⟨3⟩ ⟨2⟩, .resolve ⟨3⟩ ⟨2⟩, .resolve ⟨1⟩ ⟨2⟩]
    let s := ops.foldl Operation.perform (.new ["x"])
    Reachable s ∧ s.layouts.size = 4 ∧ s.Live (.layout ⟨1⟩) ∧ s.Live (.layout ⟨2⟩)
      ∧ s.parent ⟨0⟩ = none ∧ s.parent ⟨1⟩ = none ∧ s.parent ⟨2⟩ = some ⟨0⟩ ∧ s.parent ⟨3⟩ = some ⟨2⟩
      ∧ ⟨2⟩ ∈ s.liveChildren ⟨1⟩ ∧ ⟨2⟩ ∈ s.liveChildren ⟨0⟩
      ∧ ((s.layout ⟨3⟩).memo? ⟨2⟩).isSome ∧ ((s.invalidateNames ⟨1⟩ [⟨2⟩]).layout ⟨3⟩).memo? ⟨2⟩ = none := by
  intro ops s
  exact ⟨⟨["x"], Run.of_allHeld (by decide +kernel)⟩, by decide +kernel,
    live_of_mem_roots (by decide +kernel), live_of_mem_roots (by decide +kernel), by decide +kernel,
    by decide +kernel, by decide +kernel, by decide +kernel, by decide +kernel, by decide +kernel,
    by decide +kernel, by decide +kernel⟩

end Store

end ScopeCall
