import ScopeCall.Proofs.Sparing

/-!
# `ScopeCall.Proofs.Sweeping` — what a sweep reaches

A sweep works through a list of layouts until none is pending. It is given fuel, so it has to be shown
that the fuel lasts: each visit that goes on takes something out of a record, which pays for the layouts
that it adds to the list. So a sweep visits a set of layouts that is closed under going on to children
that are still alive when it ends.

## Contents
- **Forgetting.** `Forgetting`: what a visit does to the record and the results of one layout.
- **Load.** `Store.load` decreases with each visit that goes on.
- **The sweep.** `Store.Sweeps`, and `sweep_spec`.
-/

namespace ScopeCall

/-! ## Forgetting -/

theorem lookup_filter {α : Type} (ms : List (Name × α)) (p : Name → Bool) (n : Name) :
    (ms.filter fun m => p m.1).lookup n = if p n then ms.lookup n else none := by
  induction ms with
  | nil => simp
  | cons m ms ih =>
      rcases m with ⟨k, r⟩
      by_cases hn : n = k
      · subst hn
        by_cases hp : p n = true
        · rw [List.filter_cons_of_pos (by exact hp), List.lookup_cons_self, List.lookup_cons_self,
            if_pos hp]
        · rw [List.filter_cons_of_neg (by exact hp), ih, if_neg hp, if_neg hp]
      · have hskip : ((k, r) :: ms).lookup n = ms.lookup n := by
          simp [List.lookup_cons, beq_eq_false_iff_ne.2 hn]
        rw [hskip, ← ih]
        by_cases hp : p k = true
        · rw [List.filter_cons_of_pos (by exact hp)]
          simp [List.lookup_cons, beq_eq_false_iff_ne.2 hn]
        · rw [List.filter_cons_of_neg (by exact hp)]

theorem Layout.mem_memos_of_memo {l : Layout} {n : Name} {r : LookupResult}
    (h : l.memo? n = some r) : (n, r) ∈ l.memos := by
  rw [Layout.memo?, List.lookup_eq_some_iff] at h
  obtain ⟨before, after, heq, -⟩ := h
  rw [heq]
  exact List.mem_append_right _ List.mem_cons_self

/-- What visits do that forget the names in `N`: such a name is forgotten wherever it is recorded, and
    then the visit goes on; other names stay, and a result that is forgotten is dropped. -/
structure Forgetting (visit : Layout → Visit) (N : Name → Prop) : Prop where
  forgot : ∀ l : Layout, l.Forgot (visit l).layout
  again : ∀ l, (visit (visit l).layout).layout = (visit l).layout
  length : ∀ l, (visit l).layout.recorded.length ≤ l.recorded.length
  shrinks : ∀ l, (visit l).descend = true →
    (visit l).layout.recorded.length < l.recorded.length
  descends : ∀ l n, N n → n ∈ l.recorded → (visit l).descend = true
  keeps : ∀ l n, ¬ N n → n ∈ l.recorded → n ∈ (visit l).layout.recorded
  gone : ∀ l n, N n → n ∈ l.recorded → (visit l).layout.memo? n = none
  memo : ∀ l n r, l.memo? n = some r →
    (visit l).layout.memo? n = some r ∨ r.guard ∈ (visit l).dropped
  memo_of : ∀ l n r, (visit l).layout.memo? n = some r → l.memo? n = some r

/-- A visit leaves none of the names on record: another would not go on. -/
theorem Forgetting.not_recorded {visit : Layout → Visit} {N : Name → Prop} (hv : Forgetting visit N)
    (l : Layout) {n : Name} (hn : N n) : n ∉ (visit l).layout.recorded := by
  intro hrec
  have hshrinks := hv.shrinks _ (hv.descends _ n hn hrec)
  rw [hv.again] at hshrinks
  exact Nat.lt_irrefl _ hshrinks

/-- Whether any of some names is recorded. -/
theorem any_hasRecorded {l : Layout} {names : List Name} :
    names.any l.hasRecorded = true ↔ ∃ n ∈ names, n ∈ l.recorded := by
  simp [Layout.hasRecorded]

theorem Layout.not_recorded_forget (l : Layout) (names : List Name) :
    ¬ ∃ n ∈ names, n ∈ (l.forget names).recorded := by
  rintro ⟨n, hn, hrec⟩
  simp [Layout.forget, hn] at hrec

theorem Layout.memo_forget (l : Layout) (names : List Name) (n : Name) :
    (l.forget names).memo? n = if n ∈ names then none else l.memo? n := by
  unfold Layout.memo? Layout.forget
  rw [lookup_filter l.memos (fun k => !names.contains k) n]
  by_cases hn : n ∈ names <;> simp [hn]

/-- Either nothing is on record under the names and the layout stays, or its names are filtered. -/
theorem Layout.forgetNames_cases (l : Layout) (names : List Name) :
    ((¬ ∃ n ∈ names, n ∈ l.recorded)
        ∧ l.forgetNames names = { layout := l, dropped := [], descend := false })
      ∨ (∃ n ∈ names, n ∈ l.recorded) ∧ l.forgetNames names = {
        layout := l.forget names
        dropped := (l.memos.filter fun m => names.contains m.1).map (·.2.guard)
        descend := true } := by
  unfold Layout.forgetNames
  rw [← any_hasRecorded]
  by_cases h : names.any l.hasRecorded = true
  · exact Or.inr ⟨h, if_pos h⟩
  · exact Or.inl ⟨h, if_neg h⟩

theorem forgetting_forgetNames (names : List Name) :
    Forgetting (Layout.forgetNames names) (· ∈ names) where
  forgot := Layout.forgot_forgetNames names
  again l := by
    rcases l.forgetNames_cases names with ⟨-, h⟩ | ⟨-, h⟩
    · rw [h, h]
    · rw [h]
      rcases (l.forget names).forgetNames_cases names with ⟨-, h'⟩ | ⟨h', -⟩
      · rw [h']
      · exact absurd h' (l.not_recorded_forget names)
  length l := by
    rcases l.forgetNames_cases names with ⟨-, h⟩ | ⟨-, h⟩
    · rw [h]
    · rw [h]
      exact List.length_filter_le _ _
  shrinks l hd := by
    rcases l.forgetNames_cases names with ⟨-, h⟩ | ⟨⟨n, hn, hrec⟩, h⟩
    · rw [h] at hd
      exact absurd hd Bool.false_ne_true
    · rw [h]
      exact List.length_filter_lt_length_iff_exists.2 ⟨n, hrec, by simp [hn]⟩
  descends l n hn hrec := by
    rcases l.forgetNames_cases names with ⟨hnot, -⟩ | ⟨-, h⟩
    · exact absurd ⟨n, hn, hrec⟩ hnot
    · rw [h]
  keeps l n hn hrec := by
    rcases l.forgetNames_cases names with ⟨-, h⟩ | ⟨-, h⟩
    · rw [h]
      exact hrec
    · rw [h]
      exact List.mem_filter.2 ⟨hrec, by simpa using hn⟩
  gone l n hn hrec := by
    rcases l.forgetNames_cases names with ⟨hnot, -⟩ | ⟨-, h⟩
    · exact absurd ⟨n, hn, hrec⟩ hnot
    · rw [h]
      exact (l.memo_forget names n).trans (if_pos hn)
  memo l n r hr := by
    rcases l.forgetNames_cases names with ⟨-, h⟩ | ⟨-, h⟩
    · rw [h]
      exact Or.inl hr
    · rw [h]
      by_cases hn : n ∈ names
      · refine Or.inr (List.mem_map.2 ⟨(n, r), List.mem_filter.2 ⟨?_, by simpa using hn⟩, rfl⟩)
        exact Layout.mem_memos_of_memo hr
      · exact Or.inl (((l.memo_forget names n).trans (if_neg hn)).trans hr)
  memo_of l n r hr := by
    rcases l.forgetNames_cases names with ⟨-, h⟩ | ⟨-, h⟩
    · rw [h] at hr
      exact hr
    · rw [h] at hr
      replace hr : (l.forget names).memo? n = some r := hr
      rw [l.memo_forget names n] at hr
      split at hr
      · simp at hr
      · exact hr

theorem forgetting_forgetAll : Forgetting Layout.forgetAll fun _ => True where
  forgot := Layout.forgot_forgetAll
  again _ := rfl
  length _ := Nat.zero_le _
  shrinks l hd := by
    show 0 < l.recorded.length
    refine List.length_pos_iff.2 fun hnil => ?_
    simp [Layout.forgetAll, hnil] at hd
  descends l n _ hrec := by
    unfold Layout.forgetAll
    cases hl : l.recorded with
    | nil => simp [hl] at hrec
    | cons => rfl
  keeps _ _ hn := absurd trivial hn
  gone _ _ _ _ := rfl
  memo l n r hr := Or.inr (List.mem_map.2 ⟨(n, r), Layout.mem_memos_of_memo hr, rfl⟩)
  memo_of l n r hr := by simp [Layout.forgetAll, Layout.memo?] at hr

/-! ## Load -/

namespace Store

/-- A number summed over all layouts. -/
def total (s : Store) (f : Layout → Nat) : Nat := (s.layouts.toList.map f).sum

theorem foldl_add (ls : List Layout) (f : Layout → Nat) (n : Nat) :
    ls.foldl (fun n l => n + f l) n = n + (ls.map f).sum := by
  induction ls generalizing n with
  | nil => rfl
  | cons l ls ih =>
      rw [List.foldl_cons, ih, List.map_cons, List.sum_cons, Nat.add_assoc]

theorem sweepBound_eq (s : Store) : s.sweepBound
    = s.total (·.recorded.length) * (1 + s.total (·.children.length)) + 2 := by
  unfold sweepBound total
  simp only [← Array.foldl_toList, foldl_add, Nat.zero_add]

theorem sum_map_modify (ls : List Layout) (f : Layout → Nat) {i : Nat} {l l' : Layout}
    (h : ls[i]? = some l) :
    ((ls.modify i fun _ => l').map f).sum + f l = (ls.map f).sum + f l' := by
  induction ls generalizing i with
  | nil => simp at h
  | cons x ls ih =>
      cases i with
      | zero =>
          obtain rfl : x = l := by simpa using h
          simp only [List.modify_zero_cons, List.map_cons, List.sum_cons]
          omega
      | succ i =>
          have hrest := ih (i := i) (by simpa using h)
          simp only [List.modify_succ_cons, List.map_cons, List.sum_cons]
          omega

variable {s : Store} {visit : Layout → Visit} {N : Name → Prop}

theorem total_visited (f : Layout → Nat) {l : LayoutId} (hl : s.Allocated (.layout l)) :
    (s.visited visit l).total f + f (s.layout l) = s.total f + f (visit (s.layout l)).layout := by
  have hinv := s.aside_invalidateEach (visit (s.layout l)).dropped
  have hget : s.layouts.toList[l.index]? = some (s.layout l) := by
    have hl' : l.index < s.layouts.size := hl
    simp [layout, hl']
  unfold total visited modifyLayout
  rw [hinv.layouts, Array.toList_modify]
  exact sum_map_modify _ f hget

theorem layout_visited {l : LayoutId} (hl : s.Allocated (.layout l)) (k : LayoutId) :
    (s.visited visit l).layout k = if k = l then (visit (s.layout l)).layout else s.layout k := by
  have hinv := s.aside_invalidateEach (visit (s.layout l)).dropped
  unfold visited
  rw [layout_modifyLayout, hinv.layout]
  by_cases hk : k = l
  · rw [if_pos ⟨hk, (hinv.allocated _).2 hl⟩, if_pos hk]
  · rw [if_neg fun h => hk h.1, if_neg hk]

/-- What a sweep still has to do, at most: all visits that go on, and those that they lead to. -/
def load (s : Store) : Nat := s.total (·.recorded.length) * (1 + s.total (·.children.length))

theorem total_children_visited (hv : Forgetting visit N) {l : LayoutId}
    (hl : s.Allocated (.layout l)) :
    (s.visited visit l).total (·.children.length) = s.total (·.children.length) := by
  have h := @total_visited s visit (·.children.length) l hl
  have hsame : (visit (s.layout l)).layout.children = (s.layout l).children := by
    rw [(hv.forgot (s.layout l)).eq]
  rw [hsame] at h
  omega

theorem length_children_le {l : LayoutId} (hl : s.Allocated (.layout l)) :
    (s.layout l).children.length ≤ s.total (·.children.length) := by
  have hl' : l.index < s.layouts.size := hl
  refine List.le_sum_of_mem (List.mem_map.2 ⟨s.layout l, ?_, rfl⟩)
  rw [Array.mem_toList_iff]
  exact Array.mem_of_getElem? (i := l.index) (by simp [layout, hl'])

/-- A visit lowers the load by at least what it adds to the list of pending layouts. -/
theorem load_visited (hv : Forgetting visit N) {l : LayoutId} (hl : s.Allocated (.layout l)) :
    (s.visited visit l).load ≤ s.load ∧ ((visit (s.layout l)).descend = true →
      (s.visited visit l).load + (s.layout l).children.length + 1 ≤ s.load) := by
  have hrecorded := @total_visited s visit (·.recorded.length) l hl
  have hlength := hv.length (s.layout l)
  unfold load
  rw [total_children_visited hv hl]
  constructor
  · exact Nat.mul_le_mul_right _ (by omega)
  · intro hd
    have hshrinks := hv.shrinks (s.layout l) hd
    have hchildren := length_children_le hl
    have hless : (s.visited visit l).total (·.recorded.length) + 1
        ≤ s.total (·.recorded.length) := by omega
    calc (s.visited visit l).total (·.recorded.length) * (1 + s.total (·.children.length))
          + (s.layout l).children.length + 1
        ≤ (s.visited visit l).total (·.recorded.length) * (1 + s.total (·.children.length))
          + (1 + s.total (·.children.length)) := by omega
      _ = ((s.visited visit l).total (·.recorded.length) + 1)
          * (1 + s.total (·.children.length)) := by rw [Nat.add_mul, Nat.one_mul]
      _ ≤ s.total (·.recorded.length) * (1 + s.total (·.children.length)) :=
          Nat.mul_le_mul_right _ hless

/-! ## The sweep -/

/-- What is alive stays alive when more is held. -/
theorem Live.hold {r : Ref} (h : s.Live r) (rs : List Ref) : (s.hold rs).Live r := by
  obtain ⟨S, hS, hr⟩ := h
  refine ⟨S, fun q hq => (hS q hq).imp_left fun hroot => ?_, hr⟩
  show q ∈ (rs ++ s.stack) ++ s.handles
  rw [List.append_assoc]
  exact List.mem_append_right rs hroot

theorem WellFormed.hold (hs : s.WellFormed) {rs : List Ref} (hrs : ∀ r ∈ rs, s.Allocated r) :
    (s.hold rs).WellFormed := by
  refine ⟨fun r hr => ?_, hs.refs, hs.weak⟩
  have hr : r ∈ (rs ++ s.stack) ++ s.handles := hr
  rw [List.append_assoc] at hr
  exact (List.mem_append.1 hr).elim (hrs r) (hs.roots r)

theorem WellFormed.children (hs : s.WellFormed) {l c : LayoutId} (hc : c ∈ (s.layout l).children) :
    s.Allocated (.layout c) :=
  hs.weak l _ (List.mem_append_left _ (List.mem_append_left _ (List.mem_map_of_mem hc)))

theorem mem_liveChildren (hs : s.WellFormed) {l c : LayoutId} (hc : c ∈ (s.layout l).children)
    (hlive : s.Live (.layout c)) : c ∈ s.liveChildren l := by
  unfold liveChildren
  cases hchildren : (s.layout l).children with
  | nil => simp [hchildren] at hc
  | cons x xs =>
      refine List.mem_filter.2 ⟨hchildren ▸ hc, ?_⟩
      exact (contains_iff_live hs (hs.children hc)).2 hlive

theorem mem_children_of_liveChildren {l c : LayoutId} (hc : c ∈ s.liveChildren l) :
    c ∈ (s.layout l).children := by
  unfold liveChildren at hc
  cases hchildren : (s.layout l).children with
  | nil => simp [hchildren] at hc
  | cons x xs =>
      rw [hchildren] at hc
      exact List.mem_of_mem_filter hc

theorem length_liveChildren_le (s : Store) (l : LayoutId) :
    (s.liveChildren l).length ≤ (s.layout l).children.length := by
  unfold liveChildren
  cases (s.layout l).children with
  | nil => exact Nat.le_refl _
  | cons x xs => exact List.length_filter_le _ _

/-- `R` is visited on the way from `s` to `s'`: its members have been forgotten in, the others are as
    they were, and `R` is closed under going on to children alive at the end. -/
structure Sweeps (s s' : Store) (visit : Layout → Visit) (R : LayoutId → Prop) : Prop where
  visited : ∀ k, R k → s'.layout k = (visit (s.layout k)).layout
  others : ∀ k, ¬ R k → s'.layout k = s.layout k
  dropped : ∀ k, R k → ∀ g ∈ (visit (s.layout k)).dropped, s'.lookupValid g = false
  closed : ∀ k, R k → (visit (s.layout k)).descend = true → ∀ c ∈ (s.layout k).children,
    s'.Live (.layout c) → R c

theorem swept_sweep (hv : Forgetting visit N) (n : Nat) (pending : List LayoutId) (s : Store) :
    s.Swept (sweep visit n pending s) :=
  sweep_induction (fun s₁ k h => h.trans (s₁.swept_visited hv.forgot k)) n pending (Swept.refl s)

theorem spares_sweep (hv : Forgetting visit N) (n : Nat) (pending : List LayoutId) (s : Store) :
    s.Spares (sweep visit n pending s) :=
  sweep_induction (fun _ k h => h.visited hv.forgot k) n pending (Spares.refl s)

/-- One visit, and then a sweep. -/
theorem Sweeps.visit_first (hv : Forgetting visit N) {l : LayoutId}
    (hl : s.Allocated (.layout l)) {s' : Store} {R : LayoutId → Prop}
    (hswept : (s.visited visit l).Swept s') (h : (s.visited visit l).Sweeps s' visit R)
    (hchildren : (visit (s.layout l)).descend = true → ∀ c ∈ (s.layout l).children,
      s'.Live (.layout c) → R c) : s.Sweeps s' visit fun k => k = l ∨ R k := by
  have hself : (s.visited visit l).layout l = (visit (s.layout l)).layout :=
    (layout_visited hl l).trans (if_pos rfl)
  have hother : ∀ k, k ≠ l → (s.visited visit l).layout k = s.layout k := fun k hk =>
    (layout_visited hl k).trans (if_neg hk)
  constructor
  · intro k hk
    by_cases hkl : k = l
    · subst hkl
      by_cases hR : R k
      · rw [h.visited k hR, hself]
        exact hv.again _
      · rw [h.others k hR, hself]
    · rw [h.visited k (hk.resolve_left hkl), hother k hkl]
  · intro k hk
    have hkl : k ≠ l := fun hkl => hk (Or.inl hkl)
    rw [h.others k fun hR => hk (Or.inr hR), hother k hkl]
  · intro k hk g hg
    by_cases hkl : k = l
    · subst hkl
      -- The result was dropped by the first visit, and stays so.
      refine Bool.eq_false_iff.2 fun hvalid => ?_
      exact ((lookupValid_invalidateEach s _ g).1 (hswept.fallen g hvalid)).2 hg
    · exact h.dropped k (hk.resolve_left hkl) g (by rwa [hother k hkl])
  · intro k hk hd c hc hlive
    by_cases hkl : k = l
    · subst hkl
      exact Or.inr (hchildren hd c hc hlive)
    · rw [← hother k hkl] at hd hc
      exact Or.inr (h.closed k (hk.resolve_left hkl) hd c hc hlive)

theorem sweep_cons (visit : Layout → Visit) (n : Nat) (l : LayoutId) (pending : List LayoutId)
    (s : Store) : sweep visit (n + 1) (l :: pending) s
      = if (visit (s.layout l)).descend = true then
          sweep visit n ((((s.visited visit l).hold ((l :: pending).map Ref.layout)).liveChildren
            l).reverse ++ pending) (s.visited visit l)
        else sweep visit n pending (s.visited visit l) := by
  rw [sweep]
  rfl

theorem sweeps_nil (visit : Layout → Visit) (s : Store) :
    s.Sweeps s visit fun _ => False :=
  ⟨fun _ h => h.elim, fun _ _ => rfl, fun _ h => h.elim, fun _ h => h.elim⟩

/-- The children that a visit goes on to: registered ones, and all that are still alive at the end. -/
theorem mem_liveChildren_visited (hv : Forgetting visit N) (hs : s.WellFormed) {l : LayoutId}
    (hl : s.Allocated (.layout l)) {pending : List LayoutId}
    (hpending : ∀ k ∈ pending, s.Allocated (.layout k)) (c : LayoutId) :
    (c ∈ ((s.visited visit l).hold (pending.map Ref.layout)).liveChildren l →
        c ∈ (s.layout l).children)
      ∧ (c ∈ (s.layout l).children → ∀ s', (s.visited visit l).Leads s' → s'.Live (.layout c) →
        c ∈ ((s.visited visit l).hold (pending.map Ref.layout)).liveChildren l) := by
  have hspares := (Spares.refl s).visited hv.forgot l
  have hs₁ := hspares.leads.wellFormed hs
  have hchildren : ((s.visited visit l).layout l).children = (s.layout l).children := by
    rw [layout_visited hl, if_pos rfl, (hv.forgot (s.layout l)).eq]
  constructor
  · intro hc
    rw [← hchildren]
    exact mem_children_of_liveChildren (s := (s.visited visit l).hold (pending.map Ref.layout)) hc
  · intro hc s' hleads hlive
    rw [← hchildren] at hc
    have hheld : ((s.visited visit l).hold (pending.map Ref.layout)).WellFormed := by
      refine hs₁.hold fun r hr => ?_
      obtain ⟨k, hk, rfl⟩ := List.mem_map.1 hr
      exact hspares.leads.grows _ (hpending k hk)
    -- A child alive at the end was alive when the sweep went on to it.
    have hlive₁ : (s.visited visit l).Live (.layout c) := hleads.live hlive (hs₁.children hc)
    exact mem_liveChildren hheld hc (hlive₁.hold _)

/-- **A sweep visits all that it leads to.** -/
theorem sweep_spec (hv : Forgetting visit N) {n : Nat} {pending : List LayoutId}
    (hs : s.WellFormed) (hpending : ∀ l ∈ pending, s.Allocated (.layout l))
    (hfuel : s.load + pending.length ≤ n) :
    ∃ R, s.Sweeps (sweep visit n pending s) visit R ∧ ∀ l ∈ pending, R l := by
  induction n generalizing pending s with
  | zero =>
      have hnil : pending = [] := List.length_eq_zero_iff.1 (by omega)
      subst hnil
      exact ⟨_, s.sweeps_nil visit, by simp⟩
  | succ n ih =>
      cases pending with
      | nil => exact ⟨_, s.sweeps_nil visit, by simp⟩
      | cons l pending =>
          have hl := hpending l List.mem_cons_self
          have hrest : ∀ k ∈ pending, (s.visited visit l).Allocated (.layout k) := fun k hk =>
            ((Spares.refl s).visited hv.forgot l).leads.grows _
              (hpending k (List.mem_cons_of_mem l hk))
          have hs₁ := ((Spares.refl s).visited hv.forgot l).leads.wellFormed hs
          obtain ⟨hload, hpays⟩ := load_visited hv hl
          rw [List.length_cons] at hfuel
          rw [sweep_cons]
          split
          · rename_i hd
            have hmem := mem_liveChildren_visited hv hs hl hpending
            have hlen : (((s.visited visit l).hold
                ((l :: pending).map Ref.layout)).liveChildren l).length
                ≤ (s.layout l).children.length := by
              refine (length_liveChildren_le _ l).trans (le_of_eq (congrArg List.length ?_))
              show ((s.visited visit l).layout l).children = _
              rw [layout_visited hl, if_pos rfl, (hv.forgot (s.layout l)).eq]
            generalize ((s.visited visit l).hold ((l :: pending).map Ref.layout)).liveChildren l = cs
              at hmem hlen ⊢
            have hnext : ∀ k ∈ cs.reverse ++ pending, (s.visited visit l).Allocated (.layout k) := by
              intro k hk
              rcases List.mem_append.1 hk with hk | hk
              · have hchild := (hmem k).1 (List.mem_reverse.1 hk)
                exact ((Spares.refl s).visited hv.forgot l).leads.grows _ (hs.children hchild)
              · exact hrest k hk
            have hpays := hpays hd
            have hfuel' : (s.visited visit l).load + (cs.reverse ++ pending).length ≤ n := by
              rw [List.length_append, List.length_reverse]
              omega
            obtain ⟨R, hR, hin⟩ := ih hs₁ hnext hfuel'
            refine ⟨_, hR.visit_first hv hl (swept_sweep hv _ _ _) ?_, ?_⟩
            · intro _ c hc hlive
              have hc := (hmem c).2 hc _ (spares_sweep hv _ _ _).leads hlive
              exact hin c (List.mem_append_left _ (List.mem_reverse.2 hc))
            · intro k hk
              rcases List.mem_cons.1 hk with rfl | hk
              · exact Or.inl rfl
              · exact Or.inr (hin k (List.mem_append_right _ hk))
          · rename_i hd
            obtain ⟨R, hR, hin⟩ := ih hs₁ hrest (by omega)
            refine ⟨_, hR.visit_first hv hl (swept_sweep hv _ _ _) (fun h => absurd h hd), ?_⟩
            intro k hk
            rcases List.mem_cons.1 hk with rfl | hk
            · exact Or.inl rfl
            · exact Or.inr (hin k hk)

theorem sweep_from (hv : Forgetting visit N) (hs : s.WellFormed) {l : LayoutId}
    (hl : s.Allocated (.layout l)) :
    ∃ R, s.Sweeps (sweep visit s.sweepBound [l] s) visit R ∧ R l := by
  have hfuel : s.load + [l].length ≤ s.sweepBound := by
    rw [sweepBound_eq]
    show s.load + 1 ≤ s.load + 2
    omega
  obtain ⟨R, hR, hin⟩ := sweep_spec hv hs (by simpa using hl) hfuel
  exact ⟨R, hR, hin l List.mem_cons_self⟩

/-- Where a sweep starts, none of the names is left on record. -/
theorem not_recorded_sweep (hv : Forgetting visit N) (hs : s.WellFormed) {l : LayoutId}
    (hl : s.Allocated (.layout l)) {n : Name} (hn : N n) :
    n ∉ ((sweep visit s.sweepBound [l] s).layout l).recorded := by
  obtain ⟨R, hsweeps, hR⟩ := sweep_from hv hs hl
  rw [hsweeps.visited l hR]
  exact hv.not_recorded _ hn

end Store

end ScopeCall
