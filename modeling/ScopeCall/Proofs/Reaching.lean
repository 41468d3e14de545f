import ScopeCall.Proofs.Mirroring

/-!
# `ScopeCall.Proofs.Reaching` — exactly what a sweep reaches

A sweep goes from a layout to its children as long as it finds something on record, and the record is what
it takes away on its visits. So it comes to an end in every graph of children, and what it has reached then does
not depend on the order of the visits: it is the region that can be reached along the records of the store in
which it began. One thing depends on the course of the sweep. A result that is dropped may hold the last reference
to a function, whose layout dies with it, and a layout that has died is not a child any more.

## Contents
- **Draining.** `Store.Drains`: visits until nothing is pending, and `drains_sweep`.
- **Regions.** `Reached` and `Region`, and how one visit changes what is reached.
- **The sweep.** `Drains.reaches`: the layouts visited are those reached.
- **Invalidation.** `Store.Forgets`, `invalidation_reaches_region`, and `orphan_keeps_record`.
-/

namespace ScopeCall

/-! ## Regions -/

section Regions

variable {goes goes' : LayoutId → Prop} {heirs heirs' : LayoutId → LayoutId → Prop} {starts starts' : LayoutId → Prop}
  {k l : LayoutId}

/-- What can be reached from `starts`, going on to the heirs of layouts in `goes` only. -/
inductive Reached (goes : LayoutId → Prop) (heirs : LayoutId → LayoutId → Prop) (starts : LayoutId → Prop) :
    LayoutId → Prop where
  | start {k : LayoutId} (h : starts k) : Reached goes heirs starts k
  | onward {p c : LayoutId} (hp : Reached goes heirs starts p) (h : goes p) (hc : heirs p c) :
      Reached goes heirs starts c

/-- The least set that has `l` if `l` is a hit, and each heir of a member that is a hit itself. -/
inductive Region (hit : LayoutId → Prop) (heirs : LayoutId → LayoutId → Prop) (l : LayoutId) : LayoutId → Prop where
  | start (h : hit l) : Region hit heirs l l
  | onward {p c : LayoutId} (hp : Region hit heirs l p) (hc : heirs p c) (h : hit c) : Region hit heirs l c

theorem region_iff : Region goes heirs l k ↔ Reached goes heirs (· = l) k ∧ goes k := by
  constructor
  · intro h
    induction h with
    | start h => exact ⟨.start rfl, h⟩
    | onward _ hc h ih => exact ⟨.onward ih.1 ih.2 hc, h⟩
  · rintro ⟨h, hk⟩
    induction h with
    | start h =>
        subst h
        exact .start hk
    | onward _ hp hc ih => exact .onward (ih hp) hc hk

/-- What is reached by way of heirs that are reached in any case may be left out. -/
theorem reached_congr (hsub : ∀ p c, heirs p c → heirs' p c)
    (hclosed : ∀ p c, Reached goes heirs starts p → goes p → heirs' p c → Reached goes heirs starts c) :
    Reached goes heirs' starts k ↔ Reached goes heirs starts k := by
  constructor
  · intro h
    induction h with
    | start h => exact .start h
    | onward _ hp hc ih => exact hclosed _ _ ih hp hc
  · intro h
    induction h with
    | start h => exact .start h
    | onward _ hp hc ih => exact .onward ih hp (hsub _ _ hc)

/-- After `l` has been visited, its heirs are starts, and it is not gone on from again. -/
theorem reached_cons {pending : List LayoutId} {cs : LayoutId → Prop} (hother : ∀ k, goes' k ↔ k ≠ l ∧ goes k)
    (hstarts : ∀ k, starts' k ↔ goes l ∧ cs k ∨ k ∈ pending) :
    (k = l ∨ Reached goes' heirs starts' k)
      ↔ Reached goes (fun p c => if p = l then cs c else heirs p c) (· ∈ l :: pending) k := by
  have hfirst : Reached goes (fun p c => if p = l then cs c else heirs p c) (· ∈ l :: pending) l :=
    .start List.mem_cons_self
  constructor
  · rintro (rfl | h)
    · exact hfirst
    · induction h with
      | start h =>
          rcases (hstarts _).1 h with ⟨hl, hc⟩ | hin
          · exact .onward hfirst hl ((if_pos rfl).mpr hc)
          · exact .start (List.mem_cons_of_mem _ hin)
      | onward _ hp hc ih =>
          obtain ⟨hne, hp⟩ := (hother _).1 hp
          exact .onward ih hp ((if_neg hne).mpr hc)
  · intro h
    induction h with
    | start h =>
        exact (List.mem_cons.1 h).imp_right fun hin => .start ((hstarts _).2 (Or.inr hin))
    | @onward p c _ hp hc ih =>
        refine Or.inr ?_
        by_cases hpl : p = l
        · rw [if_pos hpl] at hc
          exact .start ((hstarts c).2 (Or.inl ⟨hpl ▸ hp, hc⟩))
        · rw [if_neg hpl] at hc
          exact .onward (ih.resolve_left hpl) ((hother p).2 ⟨hpl, hp⟩) hc

end Regions

namespace Store

variable {s s₁ s₂ s' : Store} {visit : Layout → Visit} {N : Name → Prop} {l k : LayoutId} {pending : List LayoutId}

/-! ## Draining -/

/-- The children that a sweep may go on to from `l`, while `pending` are still to be visited. -/
def heirsOf (s : Store) (visit : Layout → Visit) (l : LayoutId) (pending : List LayoutId) : List LayoutId :=
  ((s.visited visit l).hold ((l :: pending).map Ref.layout)).liveChildren l

/-- A visit of the layout would go on to its children. -/
def GoesOn (s : Store) (visit : Layout → Visit) (k : LayoutId) : Prop := (visit (s.layout k)).descend = true

/-- What is pending once `l` has been visited. -/
def pendingAfter (s : Store) (visit : Layout → Visit) (l : LayoutId) (pending : List LayoutId) : List LayoutId :=
  if (visit (s.layout l)).descend = true then (s.heirsOf visit l pending).reverse ++ pending else pending

/-- Visits take a store to another, until nothing is pending. -/
inductive Drains (visit : Layout → Visit) : List LayoutId → Store → Store → Prop where
  | done (s : Store) : Drains visit [] s s
  | visit {l : LayoutId} {pending : List LayoutId} {s s' : Store}
      (h : Drains visit (s.pendingAfter visit l pending) (s.visited visit l) s') : Drains visit (l :: pending) s s'

theorem sweep_cons_pendingAfter (visit : Layout → Visit) (n : Nat) (l : LayoutId) (pending : List LayoutId)
    (s : Store) :
    sweep visit (n + 1) (l :: pending) s = sweep visit n (s.pendingAfter visit l pending) (s.visited visit l) := by
  rw [sweep_cons, pendingAfter]
  split <;> rfl

theorem mem_pendingAfter : k ∈ s.pendingAfter visit l pending
    ↔ s.GoesOn visit l ∧ k ∈ s.heirsOf visit l pending ∨ k ∈ pending := by
  unfold pendingAfter GoesOn
  by_cases hd : (visit (s.layout l)).descend = true
  · simp [hd]
  · simp [hd]

/-- There is one store that a sweep can end in. -/
theorem Drains.unique (h : Drains visit pending s s₁) (h' : Drains visit pending s s₂) : s₁ = s₂ := by
  induction h with
  | done s =>
      cases h'
      rfl
  | visit _ ih =>
      cases h' with
      | visit h' => exact ih h'

theorem children_visited (hv : Forgetting visit N) (hl : s.Allocated (.layout l)) :
    ((s.visited visit l).layout l).children = (s.layout l).children := by
  rw [layout_visited hl, if_pos rfl, (hv.forgot (s.layout l)).eq]

/-- The heirs of a layout are registered there; if what is pending was alive before, so were they. -/
theorem live_of_mem_heirsOf (hv : Forgetting visit N) (hs : s.WellFormed) (hspares : s.Spares s₁) (hsw : s.Swept s₁)
    (hpending : ∀ k ∈ l :: pending, s.Live (.layout k)) (hk : k ∈ s₁.heirsOf visit l pending) :
    k ∈ (s.layout l).children ∧ s.Live (.layout k) := by
  have hl := (hpending l List.mem_cons_self).allocated hs
  have hheld : s.Leads ((s₁.visited visit l).hold ((l :: pending).map Ref.layout)) := by
    refine (hspares.visited hv.forgot l).leads.hold fun r hr => ?_
    obtain ⟨q, hq, rfl⟩ := List.mem_map.1 hr
    exact hpending q hq
  have hchild : k ∈ (s.layout l).children := by
    have hin := mem_children_of_liveChildren (s := (s₁.visited visit l).hold ((l :: pending).map Ref.layout)) hk
    replace hin : k ∈ ((s₁.visited visit l).layout l).children := hin
    rwa [children_visited hv (hspares.leads.grows _ hl), (hsw.layout l).eq] at hin
  exact ⟨hchild, hheld.live (live_of_mem_liveChildren (hheld.wellFormed hs) hk) (hs.children hchild)⟩

/-- A visit that goes on pays for what it adds. -/
theorem load_pendingAfter (hv : Forgetting visit N) (hl : s.Allocated (.layout l)) (pending : List LayoutId) :
    (s.visited visit l).load + (s.pendingAfter visit l pending).length ≤ s.load + pending.length := by
  obtain ⟨hload, hpays⟩ := load_visited hv hl
  unfold pendingAfter
  split
  · rename_i hd
    have hlength : (s.heirsOf visit l pending).length ≤ (s.layout l).children.length := by
      rw [← children_visited hv hl]
      exact length_liveChildren_le ((s.visited visit l).hold ((l :: pending).map Ref.layout)) l
    have hpays := hpays hd
    rw [List.length_append, List.length_reverse]
    omega
  · omega

theorem allocated_pendingAfter (hv : Forgetting visit N) (hs : s.WellFormed)
    (hpending : ∀ k ∈ l :: pending, s.Allocated (.layout k)) (hk : k ∈ s.pendingAfter visit l pending) :
    (s.visited visit l).Allocated (.layout k) := by
  refine ((Spares.refl s).visited hv.forgot l).leads.grows _ ?_
  rcases mem_pendingAfter.1 hk with ⟨-, hin⟩ | hin
  · have hl := hpending l List.mem_cons_self
    exact hs.children ((mem_liveChildren_visited hv hs hl hpending k).1 hin)
  · exact hpending k (List.mem_cons_of_mem l hin)

/-- **A sweep comes to an end**, in every graph of children: the fuel that it is given lasts until nothing is
    pending. -/
theorem drains_sweep (hv : Forgetting visit N) {n : Nat} (hs : s.WellFormed)
    (hpending : ∀ k ∈ pending, s.Allocated (.layout k)) (hfuel : s.load + pending.length ≤ n) :
    Drains visit pending s (sweep visit n pending s) := by
  induction n generalizing pending s with
  | zero =>
      obtain rfl : pending = [] := List.length_eq_zero_iff.1 (by omega)
      exact .done s
  | succ n ih =>
      cases pending with
      | nil => exact .done s
      | cons l pending =>
          have hs₁ := ((Spares.refl s).visited hv.forgot l).leads.wellFormed hs
          have hload := load_pendingAfter hv (hpending l List.mem_cons_self) pending
          rw [List.length_cons] at hfuel
          rw [sweep_cons_pendingAfter]
          exact .visit (ih hs₁ (fun k hk => allocated_pendingAfter hv hs hpending hk) (by omega))

/-- What every visit preserves is preserved until nothing is pending. -/
theorem Drains.preserves {P : Store → Prop} (step : ∀ s l, P s → P (s.visited visit l))
    (h : Drains visit pending s s') (hs : P s) : P s' := by
  induction h with
  | done s => exact hs
  | visit _ ih => exact ih (step _ _ hs)

/-! ## The sweep -/

/-- Once a layout has been visited, another visit does not go on from it. -/
theorem goesOn_visited (hv : Forgetting visit N) (hl : s.Allocated (.layout l)) :
    (s.visited visit l).GoesOn visit k ↔ k ≠ l ∧ s.GoesOn visit k := by
  unfold GoesOn
  rw [layout_visited hl]
  by_cases hk : k = l
  · subst hk
    rw [if_pos rfl]
    constructor
    · intro hd
      have hshrinks := hv.shrinks _ hd
      rw [hv.again] at hshrinks
      exact absurd hshrinks (Nat.lt_irrefl _)
    · intro h
      exact absurd rfl h.1
  · rw [if_neg hk]
    exact ⟨fun hd => ⟨hk, hd⟩, And.right⟩

/-- A sweep invalidates what it drops, and no other lookup. -/
structure Reaches (s s' : Store) (visit : Layout → Visit) (R : LayoutId → Prop) : Prop extends Sweeps s s' visit R where
  spared : ∀ g, s.lookupValid g = true → (∀ k, R k → g ∉ (visit (s.layout k)).dropped) → s'.lookupValid g = true

theorem Reaches.visit_first (hv : Forgetting visit N) (hidle : ∀ x, (visit (visit x).layout).dropped = [])
    (hl : s.Allocated (.layout l)) {R : LayoutId → Prop} (hswept : (s.visited visit l).Swept s')
    (h : (s.visited visit l).Reaches s' visit R)
    (hchildren : (visit (s.layout l)).descend = true → ∀ c ∈ (s.layout l).children, s'.Live (.layout c) → R c) :
    s.Reaches s' visit fun k => k = l ∨ R k where
  toSweeps := h.toSweeps.visit_first hv hl hswept hchildren
  spared g hg hnot := by
    refine h.spared g ((lookupValid_invalidateEach s _ g).2 ⟨hg, hnot l (Or.inl rfl)⟩) fun k hk => ?_
    rw [layout_visited hl]
    split
    · rw [hidle]
      exact List.not_mem_nil
    · exact hnot k (Or.inr hk)

/-- **A sweep visits what can be reached**, along the records of the store in which it begins. -/
theorem Drains.reaches (hv : Forgetting visit N) (hidle : ∀ x, (visit (visit x).layout).dropped = [])
    (h : Drains visit pending s₁ s') (hs : s.WellFormed) (hspares : s.Spares s₁) (hsw : s.Swept s₁)
    (hpending : ∀ k ∈ pending, s.Live (.layout k)) :
    ∃ heirs : LayoutId → LayoutId → Prop, (∀ p c, heirs p c → c ∈ s.liveChildren p)
      ∧ s₁.Reaches s' visit (Reached (s₁.GoesOn visit) heirs (· ∈ pending)) := by
  induction h with
  | done s₁ =>
      -- Nothing is reached from no starts.
      have hnone : ∀ k, ¬ Reached (s₁.GoesOn visit) (fun _ _ => False) (· ∈ []) k := by
        intro k hk
        induction hk with
        | start h => exact absurd h List.not_mem_nil
        | onward _ _ hc _ => exact hc
      refine ⟨fun _ _ => False, fun _ _ => False.elim, ?_⟩
      refine ⟨⟨fun k hk => absurd hk (hnone k), fun _ _ => rfl, fun k hk => absurd hk (hnone k),
        fun k hk => absurd hk (hnone k)⟩, fun g hg _ => hg⟩
  | @visit l pending s₁ s' hrest ih =>
      have hl := hspares.leads.grows _ ((hpending l List.mem_cons_self).allocated hs)
      have hspares₁ := hspares.visited hv.forgot l
      have hsw₁ := hsw.trans (s₁.swept_visited hv.forgot l)
      have hheirs : ∀ k ∈ s₁.heirsOf visit l pending, k ∈ (s.layout l).children ∧ s.Live (.layout k) :=
        fun k hk => live_of_mem_heirsOf hv hs hspares hsw hpending hk
      obtain ⟨heirs, hbegun, hreaches⟩ := ih hspares₁ hsw₁ fun k hk => by
        rcases mem_pendingAfter.1 hk with ⟨-, hin⟩ | hin
        · exact (hheirs k hin).2
        · exact hpending k (List.mem_cons_of_mem l hin)
      refine ⟨fun p c => if p = l then c ∈ s₁.heirsOf visit l pending else heirs p c, fun p c hc => ?_, ?_⟩
      · dsimp only at hc
        split at hc
        · rename_i hpl
          obtain ⟨hchild, hlive⟩ := hheirs c hc
          exact mem_liveChildren hs (hpl ▸ hchild) hlive
        · exact hbegun p c hc
      · have hfirst := hreaches.visit_first hv hidle hl
          (hrest.preserves (fun s l h => h.trans (s.swept_visited hv.forgot l)) (.refl _)) fun hd c hc hlive => ?_
        · have hsame : (fun k => k = l ∨ Reached ((s₁.visited visit l).GoesOn visit) heirs
                (· ∈ s₁.pendingAfter visit l pending) k)
              = Reached (s₁.GoesOn visit) (fun p c => if p = l then c ∈ s₁.heirsOf visit l pending else heirs p c)
                (· ∈ l :: pending) :=
            funext fun k => propext (reached_cons (fun k => goesOn_visited hv hl) fun k => mem_pendingAfter)
          rwa [← hsame]
        · -- A child that is alive at the end is an heir.
          have hleads := (hrest.preserves (P := (s₁.visited visit l).Spares) (fun _ l h => h.visited hv.forgot l)
            (.refl _)).leads
          have halloc : ∀ k ∈ l :: pending, s₁.Allocated (.layout k) := fun k hk =>
            hspares.leads.grows _ ((hpending k hk).allocated hs)
          have hin := (mem_liveChildren_visited hv (hspares.leads.wellFormed hs) hl halloc c).2 hc s' hleads hlive
          exact .start (mem_pendingAfter.2 (Or.inl ⟨hd, hin⟩))

/-! ## Invalidation -/

/-- Which children a sweep from `s` to `s'` goes on to: none that was dead when it began, and each that is alive
    when it ends. So they are just those alive, if no layout dies on the way. -/
structure Between (s s' : Store) (heirs : LayoutId → LayoutId → Prop) : Prop where
  begun : ∀ p c, heirs p c → c ∈ s.liveChildren p
  ended : ∀ p c, c ∈ s'.liveChildren p → heirs p c
  lasting : (∀ c, s.Live (.layout c) → s'.Live (.layout c)) → ∀ p c, heirs p c ↔ c ∈ s.liveChildren p

/-- `s'` is `s` after the lookups of the names in `N` have been forgotten at the layouts in `R`. -/
structure Forgets (s s' : Store) (N : Name → Prop) (R : LayoutId → Prop) : Prop where
  recorded : ∀ k n, n ∈ (s'.layout k).recorded ↔ n ∈ (s.layout k).recorded ∧ ¬ (R k ∧ N n)
  memo : ∀ k n r, (s'.layout k).memo? n = some r ↔ (s.layout k).memo? n = some r ∧ ¬ (R k ∧ N n)
  /-- The guards of the results that are dropped fall, and no other. -/
  guards : ∀ g, s'.lookupValid g = true
    ↔ s.lookupValid g = true ∧ ∀ k n r, R k → N n → (n, r) ∈ (s.layout k).memos → r.guard ≠ g
  layout : ∀ k, s'.layout k
    = { s.layout k with recorded := (s'.layout k).recorded, memos := (s'.layout k).memos }
  rest : s' = { s with layouts := s'.layouts, lookups := s'.lookups }

/-- A sweep from one layout, which is alive. -/
theorem reaches_sweep (hv : Forgetting visit N) (hidle : ∀ x, (visit (visit x).layout).dropped = []) (hs : s.WellFormed)
    (hl : s.Live (.layout l)) :
    Drains visit [l] s (sweep visit s.sweepBound [l] s) ∧ ∃ heirs, s.Between (sweep visit s.sweepBound [l] s) heirs
      ∧ s.Reaches (sweep visit s.sweepBound [l] s) visit
        (Reached (s.GoesOn visit) heirs (· = l)) := by
  have hfuel : s.load + [l].length ≤ s.sweepBound := by
    rw [sweepBound_eq]
    show s.load + 1 ≤ s.load + 2
    omega
  have hdrains : Drains visit [l] s (sweep visit s.sweepBound [l] s) :=
    drains_sweep hv hs (List.forall_mem_singleton.2 (hl.allocated hs)) hfuel
  obtain ⟨heirs, hbegun, hreaches⟩ := hdrains.reaches hv hidle hs (.refl s) (.refl s) (List.forall_mem_singleton.2 hl)
  simp only [List.mem_singleton] at hreaches
  have hspares := spares_sweep hv s.sweepBound [l] s
  have hsw := swept_sweep hv s.sweepBound [l] s
  have hs' := hspares.leads.wellFormed hs
  generalize sweep visit s.sweepBound [l] s = s' at *
  -- Each child alive at the end is reached in any case, so it may count as an heir.
  have hchild : ∀ p c, c ∈ s'.liveChildren p → c ∈ (s.layout p).children ∧ s'.Live (.layout c) := fun p c hc => by
    have hin := mem_children_of_liveChildren hc
    rw [(hsw.layout p).eq] at hin
    exact ⟨hin, live_of_mem_liveChildren hs' hc⟩
  have hbefore : ∀ p c, heirs p c ∨ c ∈ s'.liveChildren p → c ∈ s.liveChildren p := by
    rintro p c (hc | hc)
    · exact hbegun p c hc
    · obtain ⟨hin, hlive⟩ := hchild p c hc
      exact mem_liveChildren hs hin (hspares.leads.live hlive (hs.children hin))
  refine ⟨hdrains, fun p c => heirs p c ∨ c ∈ s'.liveChildren p, ⟨hbefore, fun p c => Or.inr,
    fun hlasting p c => ⟨hbefore p c, fun hc => Or.inr (mem_liveChildren hs' ?_ ?_)⟩⟩, ?_⟩
  · rw [(hsw.layout p).eq]
    exact mem_children_of_liveChildren hc
  · exact hlasting c (live_of_mem_liveChildren hs hc)
  · have hsame : Reached (s.GoesOn visit) (fun p c => heirs p c ∨ c ∈ s'.liveChildren p) (· = l)
        = Reached (s.GoesOn visit) heirs (· = l) := by
      funext k
      apply propext
      apply reached_congr
      · intro p c hc
        exact Or.inl hc
      · intro p c hp hd hc
        rcases hc with hc | hc
        · exact .onward hp hd hc
        · exact hreaches.closed p hp hd c (hchild p c hc).1 (hchild p c hc).2
    rwa [hsame]

/-- What a visit takes from a layout that is a hit, and from no other: the names in `N`. -/
structure Erasing (visit : Layout → Visit) (N : Name → Prop) (hit : Layout → Prop) : Prop where
  recorded : ∀ x n, n ∈ (visit x).layout.recorded ↔ n ∈ x.recorded ∧ ¬ (hit x ∧ N n)
  memo : ∀ x n r, (visit x).layout.memo? n = some r ↔ x.memo? n = some r ∧ ¬ (hit x ∧ N n)
  dropped : ∀ x g, g ∈ (visit x).dropped ↔ hit x ∧ ∃ n r, N n ∧ (n, r) ∈ x.memos ∧ r.guard = g

theorem erasing_forgetNames (names : List Name) :
    Erasing (Layout.forgetNames names) (· ∈ names) fun x => ∃ n ∈ names, n ∈ x.recorded where
  recorded x n := by
    rcases x.forgetNames_cases names with ⟨hnone, h⟩ | ⟨hsome, h⟩
    · rw [h, iff_self_and]
      exact fun _ hc => hnone hc.1
    · simp [h, hsome, Layout.forget]
  memo x n r := by
    rcases x.forgetNames_cases names with ⟨hnone, h⟩ | ⟨hsome, h⟩
    · rw [h, iff_self_and]
      exact fun _ hc => hnone hc.1
    · rw [h, Layout.memo_forget]
      by_cases hn : n ∈ names
      · simp only [hn, hsome, if_true, and_self, not_true, and_false, reduceCtorEq]
      · simp [hn]
  dropped x g := by
    rcases x.forgetNames_cases names with ⟨hnone, h⟩ | ⟨hsome, h⟩
    · simp [h, hnone]
    · simp only [h, hsome, true_and, List.mem_map, List.mem_filter, List.contains_iff_mem, Prod.exists]
      exact exists_congr fun n => exists_congr fun r => by tauto

theorem erasing_forgetAll : Erasing Layout.forgetAll (fun _ => True) fun _ => True := by
  refine ⟨fun x n => ?_, fun x n r => ?_, fun x g => ?_⟩
  · simp [Layout.forgetAll]
  · simp [Layout.forgetAll, Layout.memo?]
  · simp [Layout.forgetAll]

/-- The layouts reached have been forgotten in where they were hit, and nothing else has changed. -/
theorem Reaches.forgets {R : LayoutId → Prop} {hit : Layout → Prop} (h : s.Reaches s' visit R) (hsw : s.Swept s')
    (he : Erasing visit N hit) : s.Forgets s' N fun k => R k ∧ hit (s.layout k) where
  recorded k n := by
    by_cases hk : R k
    · rw [h.visited k hk, he.recorded, and_iff_right hk]
    · rw [h.others k hk]
      simp [hk]
  memo k n r := by
    by_cases hk : R k
    · rw [h.visited k hk, he.memo, and_iff_right hk]
    · rw [h.others k hk]
      simp [hk]
  guards g := by
    constructor
    · intro hg
      refine ⟨hsw.fallen g hg, fun k n r hk hn hm heq => ?_⟩
      have hdropped := h.dropped k hk.1 g ((he.dropped _ g).2 ⟨hk.2, n, r, hn, hm, heq⟩)
      exact absurd (hg.symm.trans hdropped) (by decide)
    · rintro ⟨hg, hnot⟩
      refine h.spared g hg fun k hk hin => ?_
      obtain ⟨hhit, n, r, hn, hm, heq⟩ := (he.dropped _ g).1 hin
      exact hnot k n r ⟨hk, hhit⟩ hn hm heq
  layout k := (hsw.layout k).eq
  rest := hsw.eq

/-- Where the names are forgotten, a second visit drops nothing. -/
theorem dropped_forgetNames_again (names : List Name) (x : Layout) :
    ((x.forgetNames names).layout.forgetNames names).dropped = [] := by
  rcases (x.forgetNames names).layout.forgetNames_cases names with ⟨-, h⟩ | ⟨⟨n, hn, hrec⟩, -⟩
  · rw [h]
  · exact absurd hrec ((forgetting_forgetNames names).not_recorded x hn)

/-- Some of the names are on record at a layout. -/
def RecordsAny (s : Store) (names : List Name) (k : LayoutId) : Prop := ∃ n ∈ names, n ∈ (s.layout k).recorded

theorem forgets_invalidateNames (hs : s.WellFormed) (hl : s.Live (.layout l)) (names : List Name) :
    Drains (Layout.forgetNames names) [l] s (s.invalidateNames l names)
      ∧ ∃ heirs, s.Between (s.invalidateNames l names) heirs
        ∧ s.Forgets (s.invalidateNames l names) (· ∈ names) (Region (s.RecordsAny names) heirs l) := by
  have hgoes : s.GoesOn (Layout.forgetNames names) = s.RecordsAny names := by
    funext k
    apply propext
    unfold RecordsAny
    rw [← any_hasRecorded]
    unfold GoesOn Layout.forgetNames
    split <;> simp [*]
  obtain ⟨hdrains, heirs, hbetween, hreaches⟩ :=
    reaches_sweep (forgetting_forgetNames names) (dropped_forgetNames_again names) hs hl
  rw [hgoes] at hreaches
  -- Of what is reached, a visit changes the layouts where it goes on.
  have hregion : Region (s.RecordsAny names) heirs l
      = fun k => Reached (s.RecordsAny names) heirs (· = l) k ∧ s.RecordsAny names k := by
    funext k
    apply propext
    exact region_iff
  refine ⟨hdrains, heirs, hbetween, ?_⟩
  rw [hregion]
  exact hreaches.forgets (swept_invalidateNames s l names) (erasing_forgetNames names)

theorem forgets_invalidateAll (hs : s.WellFormed) (hl : s.Live (.layout l)) :
    Drains Layout.forgetAll [l] s (s.invalidateAll l)
      ∧ ∃ heirs, s.Between (s.invalidateAll l) heirs
        ∧ s.Forgets (s.invalidateAll l) (fun _ => True)
          (Reached (fun k => (s.layout k).recorded ≠ []) heirs (· = l)) := by
  have hgoes : s.GoesOn Layout.forgetAll = fun k => (s.layout k).recorded ≠ [] := by
    funext k
    simp [GoesOn, Layout.forgetAll]
  obtain ⟨hdrains, heirs, hbetween, hreaches⟩ := reaches_sweep forgetting_forgetAll (fun _ => rfl) hs hl
  rw [hgoes] at hreaches
  have hforgets := hreaches.forgets (swept_invalidateAll s l) erasing_forgetAll
  simp only [and_true] at hforgets
  exact ⟨hdrains, heirs, hbetween, hforgets⟩

/-- **Invalidation reaches exactly the region on record.** It comes to an end in every graph of children. What was
    looked up for the names is forgotten at `l` if any of them is on record there, and at each child of such a layout
    where any is on record itself, and all else stays; invalidating all names forgets everything at `l`, and at the
    children of each layout reached that has anything on record. The children are those alive when the sweep goes on
    to them. -/
theorem invalidation_reaches_region (hs : s.WellFormed) (hl : s.Live (.layout l)) :
    (∀ names, Drains (Layout.forgetNames names) [l] s (s.invalidateNames l names)
      ∧ ∃ heirs, s.Between (s.invalidateNames l names) heirs
        ∧ s.Forgets (s.invalidateNames l names) (· ∈ names) (Region (s.RecordsAny names) heirs l))
    ∧ Drains Layout.forgetAll [l] s (s.invalidateAll l)
    ∧ ∃ heirs, s.Between (s.invalidateAll l) heirs
      ∧ s.Forgets (s.invalidateAll l) (fun _ => True)
        (Reached (fun k => (s.layout k).recorded ≠ []) heirs (· = l)) := by
  constructor
  · intro names
    exact forgets_invalidateNames hs hl names
  · exact forgets_invalidateAll hs hl

/-- A module is registered with two others, and a name is on record at each. An invalidation that starts at one of
    them reaches the module, and the function in it. -/
theorem region_of_shared_child :
    let ops : List Operation := [.newLayout "g" .singleton {}, .newScope ⟨0⟩ none 0,
      .newLayout "h" .singleton {}, .newScope ⟨1⟩ none 0, .newLayout "s" .singleton {}, .newScope ⟨2⟩ (some ⟨1⟩) 0,
      .newLayout "m" .singleton {}, .newScope ⟨3⟩ (some ⟨0⟩) 0, .attach ⟨3⟩ ⟨2⟩, .resolve ⟨3⟩ ⟨2⟩, .resolve ⟨1⟩ ⟨2⟩]
    let s := ops.foldl Operation.perform (.new ["x"])
    let s' := s.invalidateNames ⟨1⟩ [⟨2⟩]
    s.WellFormed ∧ s.Live (.layout ⟨1⟩) ∧ ⟨2⟩ ∈ s.liveChildren ⟨0⟩ ∧ ⟨2⟩ ∈ s.liveChildren ⟨1⟩
      ∧ Drains (Layout.forgetNames [⟨2⟩]) [⟨1⟩] s s' ∧ ⟨2⟩ ∈ (s.layout ⟨3⟩).recorded
      ∧ ⟨2⟩ ∉ (s'.layout ⟨3⟩).recorded ∧ ⟨2⟩ ∈ (s'.layout ⟨0⟩).recorded := by
  intro ops s s'
  have hs : s.WellFormed := Sound.wellFormed (Reachable.sound ⟨["x"], Run.of_allHeld (by decide +kernel)⟩)
  have hl : s.Live (.layout ⟨1⟩) := live_of_mem_roots (by decide +kernel)
  obtain ⟨hdrains, heirs, hbetween, hforgets⟩ := (invalidation_reaches_region hs hl).1 [⟨2⟩]
  have hregion : Region (s.RecordsAny [⟨2⟩]) heirs ⟨1⟩ ⟨3⟩ := by
    have hstart : Region (s.RecordsAny [⟨2⟩]) heirs ⟨1⟩ ⟨1⟩ := .start ⟨⟨2⟩, by decide, by decide +kernel⟩
    have hmodule := hstart.onward (hbetween.ended ⟨1⟩ ⟨2⟩ (by decide +kernel)) ⟨⟨2⟩, by decide, by decide +kernel⟩
    exact hmodule.onward (hbetween.ended ⟨2⟩ ⟨3⟩ (by decide +kernel)) ⟨⟨2⟩, by decide, by decide +kernel⟩
  refine ⟨hs, hl, by decide +kernel, by decide +kernel, hdrains, by decide +kernel, fun hin => ?_, by decide +kernel⟩
  exact ((hforgets.recorded ⟨3⟩ ⟨2⟩).1 hin).2 ⟨hregion, by decide⟩

/-- **A child that dies on the way is not reached.** A function that has been called in a module is assigned to a
    name, and then given up; what another module remembers for the name is all that still refers to it. The sweep
    drops that result, and the layout of the function dies before the sweep has come to the module around it. So the
    layout of a scope that the function made keeps the name on record, though all layouts on the way to it were alive
    when the sweep began. -/
theorem orphan_keeps_record :
    let s₁ := [Operation.newLayout "g" .singleton {}, .newScope ⟨0⟩ none 0, .define ⟨0⟩ ⟨2⟩ (.int 1),
      .newLayout "p" .singleton {}, .newScope ⟨1⟩ (some ⟨0⟩) 0, .newLayout "d" .singleton {}].foldl
        Operation.perform (.new ["x"])
    let s₂ := (s₁.closing { name := ⟨2⟩ } ⟨1⟩ ⟨0⟩).acquire [.layout ⟨3⟩]
    let s₃ := [Operation.newScope ⟨3⟩ (some ⟨1⟩) 1, .newScope ⟨2⟩ (some ⟨2⟩) 1, .resolve ⟨3⟩ ⟨2⟩,
      .define ⟨0⟩ ⟨2⟩ (.function ⟨0⟩)].foldl Operation.perform s₂
    let s₄ := s₃.release [.activation ⟨3⟩, .activation ⟨2⟩, .layout ⟨3⟩, .callable ⟨0⟩]
    let s := [Operation.newLayout "m" .singleton {}, .newScope ⟨4⟩ (some ⟨0⟩) 0, .resolve ⟨4⟩ ⟨2⟩,
      .define ⟨0⟩ ⟨2⟩ (.int 2)].foldl Operation.perform s₄
    Treelike s ∧ s.Live (.layout ⟨0⟩)
      ∧ Region (s.RecordsAny [⟨2⟩]) (fun p c => c ∈ s.liveChildren p) ⟨0⟩ ⟨2⟩
      ∧ ⟨2⟩ ∈ ((s.invalidateNames ⟨0⟩ [⟨2⟩]).layout ⟨2⟩).recorded := by
  intro s₁ s₂ s₃ s₄ s
  have h₁ : Relation.ReflTransGen TreeStep (.new ["x"]) (s₁.closing { name := ⟨2⟩ } ⟨1⟩ ⟨0⟩) :=
    (TreeStep.of_allFit (by decide +kernel)).tail (.closure _ ⟨1⟩ ⟨0⟩ (by decide +kernel))
  have hwf := (Treelike.mirrored ⟨["x"], h₁⟩).1.wellFormed
  have hlayout : (s₁.closing { name := ⟨2⟩ } ⟨1⟩ ⟨0⟩).Live (.layout ⟨3⟩) :=
    (isLive_iff hwf (by decide +kernel)).1 (by decide +kernel)
  have h₂ : Relation.ReflTransGen TreeStep (.new ["x"]) s₂ :=
    h₁.tail (.elsewhere (elsewhere_acquire (List.forall_mem_singleton.2 hlayout)))
  have h₃ : Relation.ReflTransGen TreeStep s₂ s₃ := TreeStep.of_allFit (by decide +kernel)
  have h₄ : Relation.ReflTransGen TreeStep s₂ s₄ := h₃.tail (.elsewhere (elsewhere_release _ _))
  have h₅ : Relation.ReflTransGen TreeStep s₄ s := TreeStep.of_allFit (by decide +kernel)
  have hregion : Region (s.RecordsAny [⟨2⟩]) (fun p c => c ∈ s.liveChildren p) ⟨0⟩ ⟨2⟩ := by
    have hstart : Region (s.RecordsAny [⟨2⟩]) (fun p c => c ∈ s.liveChildren p) ⟨0⟩ ⟨0⟩ :=
      .start ⟨⟨2⟩, by decide, by decide +kernel⟩
    have hmodule : Region _ _ _ ⟨1⟩ := hstart.onward (by decide +kernel) ⟨⟨2⟩, by decide, by decide +kernel⟩
    have hfunction : Region _ _ _ ⟨3⟩ := hmodule.onward (by decide +kernel) ⟨⟨2⟩, by decide, by decide +kernel⟩
    exact hfunction.onward (by decide +kernel) ⟨⟨2⟩, by decide, by decide +kernel⟩
  exact ⟨⟨["x"], (h₂.trans h₄).trans h₅⟩, live_of_mem_roots (by decide +kernel), hregion, by decide +kernel⟩

end Store

end ScopeCall
