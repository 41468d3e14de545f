import ScopeCall.Proofs.Writing

/-!
# `ScopeCall.Proofs.Walking` — walks, and what they leave behind

A walk asks one layout after another. What a layout says through `Store.stopAt`, with its activation
alive, is what it says through `Store.view`; so the walk that has just been recorded is a trace. A result
that takes the place of another invalidates it, which keeps read sites from trusting the wrong one.

## Contents
- **From walks to traces.** `trace_of_walk`.
- **What is left behind.** `Remembers.recordWalk`, `Remembers.memoize` and `remembers_memoize_walked`.
- **Resolving and reading.** `remembers_resolve` and `remembers_cachedRead`.
-/

namespace ScopeCall

namespace Store

variable {s s₁ s₂ : Store} {alive : LayoutId → Prop} {pending : LayoutId → Name → Prop}
  {a : ActivationId} {n : Name}

/-! ## From walks to traces -/

/-- The layout of a live activation that names an activation names this one, so it does not matter that
    the walk asks whether it is alive. -/
theorem stopAt_eq_view (hs : s.Sound)
    (hclaimed : ∀ l b, (s.layout l).singleton = some b → (s.layout l).kind.isSingleton = true)
    (ha : s.Live (.activation a)) (n : Name) :
    s.stopAt (s.layoutOf a) n = s.view (s.layoutOf a) n := by
  have hown : s.singletonActivation (s.layoutOf a) = (s.layout (s.layoutOf a)).singleton := by
    cases hsingle : (s.layout (s.layoutOf a)).singleton with
    | none => rw [singletonActivation, hsingle, Option.bind_none]
    | some b =>
        have hb := hs.bindings.unique a ha (hclaimed _ b hsingle)
        rw [hsingle] at hb
        obtain rfl := Option.some.inj hb
        have hlive := (isLive_iff hs.wellFormed (ha.allocated hs.wellFormed)).2 ha
        rw [singletonActivation, hsingle, Option.bind_some, upgradeActivation, if_pos hlive]
  unfold stopAt view
  rw [hown]
  rfl

/-- The activations that a walk passes are alive. -/
theorem live_of_mem_path (hs : s.WellFormed) {fuel : Nat} {f : Finding} {path : List ActivationId}
    (ha : s.Live (.activation a)) (hw : s.walk n fuel a = some (f, path)) :
    ∀ b ∈ path, s.Live (.activation b) := by
  replace hw := walks_of_walk hw
  induction hw with
  | stop | root => exact fun b hb => List.mem_singleton.1 hb ▸ ha
  | up _ _ hnext _ ih => exact List.forall_mem_cons.2 ⟨ha, ih (ha.enclosing hs hnext)⟩

/-- A tracked slot that a walk finds has a valid token. -/
theorem findingValid_of_walk (hs : s.Sound) {fuel : Nat} {f : Finding} {path : List ActivationId}
    (hw : s.walk n fuel a = some (f, path)) : s.findingValid f = true := by
  replace hw := walks_of_walk hw
  induction hw with
  | stop hstop =>
      rcases stopAt_found hstop with ⟨slot, t, ht, rfl⟩ | ⟨slot, b, -, rfl⟩
      · -- A tracked slot has a token, and bindings keep the token of a slot valid.
        exact hs.bindings.valid _ _ t ht
      · rfl
  | root => rfl
  | up _ _ _ _ ih => exact ih

/-- **A walk that has been recorded is a trace.** -/
theorem trace_of_walk (hs : s.Sound) (hn : s.Nested) {fuel : Nat} {f : Finding}
    {path : List ActivationId} (ha : s.Live (.activation a))
    (hw : s.walk n fuel a = some (f, path)) (hview : ∀ k, s₁.view k n = s.view k n)
    (henclosing : ∀ k, (s₁.layout k).enclosing = (s.layout k).enclosing)
    (hrecorded : ∀ b ∈ path, n ∈ (s₁.layout (s.layoutOf b)).recorded) :
    s₁.Trace pending n (s.layoutOf a) f := by
  have hsame : ∀ {b}, s.Live (.activation b) →
      s₁.view (s.layoutOf b) n = s.stopAt (s.layoutOf b) n := fun hb =>
    (hview _).trans (stopAt_eq_view hs hn.claimed hb n).symm
  replace hw := walks_of_walk hw
  -- Each step of the walk is one of the trace: the view decides where it stops, and the link where it goes.
  induction hw with
  | stop hstop => exact .stop (hrecorded _ List.mem_cons_self) ((hsame ha).trans hstop)
  | root hstop halong _ =>
      exact .root (hrecorded _ List.mem_cons_self) ((hsame ha).trans hstop) ((henclosing _).trans halong)
  | up hstop halong hnext _ ih =>
      obtain ⟨hhere, hpassed⟩ := List.forall_mem_cons.1 hrecorded
      exact .up hhere ((hsame ha).trans hstop) ((henclosing _).trans halong)
        (ih (ha.enclosing hs.wellFormed hnext) hpassed)

/-! ## What is left behind -/

theorem Layout.record_part {α : Type} (part : Layout → α)
    (h : ∀ (x : Layout) names, part { x with recorded := names } = part x) (x : Layout) (m : Name) :
    part (x.record m) = part x := by
  unfold Layout.record
  split
  · rfl
  · exact h x _

theorem Layout.eq_of_unrecorded {x y : Layout}
    (h : { x with recorded := [] } = { y with recorded := [] }) :
    x = { y with recorded := x.recorded, memos := x.memos } := by
  cases x
  cases y
  simp_all

theorem Layout.mem_recorded_record {x : Layout} {m k : Name} :
    k ∈ (x.record m).recorded ↔ k ∈ x.recorded ∨ k = m := by
  unfold Layout.record Layout.hasRecorded
  split
  · rename_i h
    have hm : m ∈ x.recorded := by simpa using h
    exact ⟨Or.inl, fun hk => hk.elim id fun hkm => hkm ▸ hm⟩
  · simp

theorem Layout.record_of_mem {x : Layout} {m : Name} (h : m ∈ x.recorded) : x.record m = x := by
  unfold Layout.record Layout.hasRecorded
  exact if_pos (by simpa using h)

/-- The result that is remembered last is the one that is remembered. -/
theorem Layout.memo_memoize (x : Layout) (n m : Name) (r : LookupResult) :
    (x.memoize n r).memo? m = if m = n then some r else x.memo? m := by
  have hfilter : (x.memos.filter fun p => p.1 ≠ n).lookup m
      = if decide (m ≠ n) = true then x.memos.lookup m else none :=
    lookup_filter x.memos (fun k => decide (k ≠ n)) m
  unfold Layout.memo? Layout.memoize
  dsimp only
  rw [List.lookup_append, hfilter]
  by_cases hm : m = n
  · simp [hm]
  · simp [hm, List.lookup_cons, beq_eq_false_iff_ne.2 hm]

theorem recordWalk_cons (s : Store) (n : Name) (b : ActivationId) (path : List ActivationId) :
    s.recordWalk n (b :: path) = (s.modifyLayout (s.layoutOf b) (·.record n)).recordWalk n path := rfl

/-- Recording a walk changes records only. -/
theorem part_recordWalk {α : Type} (part : Layout → α)
    (hpart : ∀ (x : Layout) names, part { x with recorded := names } = part x)
    (s : Store) (n : Name) (path : List ActivationId) (k : LayoutId) :
    part ((s.recordWalk n path).layout k) = part (s.layout k) := by
  induction path generalizing s with
  | nil => rfl
  | cons b path ih =>
      rw [recordWalk_cons, ih]
      exact layout_modifyLayout_congr s part _ k _ (Layout.record_part part hpart _ n)

theorem recordWalk_eq (s : Store) (n : Name) (path : List ActivationId) :
    s.recordWalk n path = { s with layouts := (s.recordWalk n path).layouts }
      ∧ (s.recordWalk n path).layouts.size = s.layouts.size := by
  induction path generalizing s with
  | nil => exact ⟨rfl, rfl⟩
  | cons b path ih =>
      obtain ⟨heq, hsize⟩ := ih (s.modifyLayout (s.layoutOf b) (·.record n))
      rw [recordWalk_cons]
      refine ⟨heq, hsize.trans ?_⟩
      simp [modifyLayout]

/-- After a walk the name is recorded at the layouts that it passed, besides what was recorded. -/
theorem mem_recordWalk (s : Store) (n m : Name) (path : List ActivationId) (k : LayoutId) :
    m ∈ ((s.recordWalk n path).layout k).recorded ↔ m ∈ (s.layout k).recorded
      ∨ m = n ∧ s.Allocated (.layout k) ∧ ∃ b ∈ path, s.layoutOf b = k := by
  induction path generalizing s with
  | nil => simp [recordWalk]
  | cons b path ih =>
      have hstep : m ∈ ((s.modifyLayout (s.layoutOf b) (·.record n)).layout k).recorded
          ↔ m ∈ (s.layout k).recorded ∨ m = n ∧ s.Allocated (.layout k) ∧ s.layoutOf b = k := by
        rw [layout_modifyLayout]
        split
        · rename_i hk
          obtain ⟨rfl, hl⟩ := hk
          rw [Layout.mem_recorded_record]
          simp [hl]
        · rename_i hk
          refine ⟨Or.inl, fun h => h.resolve_right ?_⟩
          rintro ⟨-, hl, rfl⟩
          exact hk ⟨rfl, hl⟩
      rw [recordWalk_cons, ih, hstep]
      simp only [Leads.allocated_modifyLayout, List.mem_cons, exists_eq_or_imp]
      rw [show (s.modifyLayout (s.layoutOf b) (·.record n)).layoutOf = s.layoutOf from rfl]
      tauto

/-- The guard of a new lookup is valid, and nothing rests on it yet. -/
theorem Remembers.addLookup (h : s.Remembers alive pending) (hs : s.WellFormed) (label : String) :
    (s.addLookup label).Remembers alive pending := by
  have hnested : (s.addLookup label).Nested := h.toNested.same ⟨fun _ => Iff.rfl, fun _ => rfl,
    fun _ => rfl, fun _ => rfl, fun _ => rfl, fun _ => rfl, fun _ => rfl⟩ fun _ _ => Or.inl
  refine ⟨h.carry hs hnested ⟨fun _ hk => hk, fun _ _ hn => hn, fun _ _ => rfl, fun _ _ _ => rfl, ?_,
    fun g hg hv => ?_, fun _ _ => rfl⟩ (fun _ _ => id) (fun _ _ => id) fun _ _ _ => Or.inl rfl,
    h.upward⟩
  · simp [Store.addLookup]
  · rwa [lookupValid_addLookup, if_neg (Nat.ne_of_lt hg)] at hv

/-- Recording a name at layouts with activations takes nothing away from any trace. -/
theorem Remembers.recordWalk (h : s.Remembers alive pending) (hs : s.WellFormed) (n : Name)
    {path : List ActivationId} (hpath : ∀ b ∈ path, s.Current b) :
    (s.recordWalk n path).Remembers alive pending := by
  obtain ⟨heq, hsize⟩ := s.recordWalk_eq n path
  have hpart : ∀ {α : Type} (part : Layout → α),
      (∀ (x : Layout) names, part { x with recorded := names } = part x) → ∀ k,
      part ((s.recordWalk n path).layout k) = part (s.layout k) := fun part hpart =>
    part_recordWalk part hpart s n path
  have hstable : (s.recordWalk n path).stable = s.stable := by rw [heq]; rfl
  have hnested : (s.recordWalk n path).Nested := by
    refine h.toNested.recorded (by rw [heq]) (fun k => ?_) fun k m hm => ?_
    · have hrest := hpart (fun x => { x with recorded := [] }) (fun _ _ => rfl) k
      exact Layout.eq_of_unrecorded hrest
    · rcases (s.mem_recordWalk n m path k).1 hm with hm | ⟨-, -, b, hb, hbk⟩
      · exact Or.inl hm
      · exact Or.inr ⟨b, hpath b hb, hbk⟩
  have henclosing := hpart Layout.enclosing fun _ _ => rfl
  have hcarries : s.Carries (s.recordWalk n path) := {
    layouts k hk := by simpa only [Allocated, hsize] using hk
    recorded k m hm := (s.mem_recordWalk n m path k).2 (Or.inl hm)
    memo k m := hpart (Layout.memo? · m) (fun _ _ => rfl) k
    enclosing k _ _ := henclosing k
    size := by rw [heq]
    valid g _ hg := by rwa [heq] at hg
    cache c _ := by
      rw [heq]
      rfl }
  refine ⟨h.carry hs hnested hcarries (fun t _ ht => ?_) (fun _ _ => id) fun k m _ => Or.inl ?_,
    fun k p hk hp => h.upward k p hk (henclosing k ▸ hp)⟩
  · rwa [stableValid, hstable] at ht
  · exact view_of_layout m (hpart Layout.slots (fun _ _ => rfl) k)
      (hpart Layout.singleton (fun _ _ => rfl) k) hstable

/-- What remembering a result leaves: the result in the place of another, whose guard has fallen. -/
structure Memoizes (s s' : Store) (l : LayoutId) (n : Name) (r : LookupResult) : Prop where
  eq : s' = { s with layouts := s'.layouts, lookups := s'.lookups }
  size : s'.layouts.size = s.layouts.size
  sizeLookups : s'.lookups.size = s.lookups.size
  layout : ∀ k, s'.layout k = { s.layout k with memos := (s'.layout k).memos }
  memo : ∀ k m, (s'.layout k).memo? m = if k = l ∧ m = n then some r else (s.layout k).memo? m
  memos : ∀ k, ∀ m ∈ (s'.layout k).memos, m ∈ (s.layout k).memos ∨ k = l ∧ m = (n, r)
  valid : ∀ g, s'.lookupValid g = true ↔ s.lookupValid g = true
    ∧ ∀ r', (s.layout l).memo? n = some r' → g ≠ r'.guard

/-- At a layout where the name is on record, results are all that changes. -/
theorem memoizes_memoize {l : LayoutId} (hn : n ∈ (s.layout l).recorded) (r : LookupResult) :
    s.Memoizes (s.memoize l n r) l n r := by
  have hl := allocated_of_recorded hn
  have hlayout : ∀ k, (s.memoize l n r).layout k
      = if k = l then (s.layout l).memoize n r else s.layout k := by
    intro k
    rw [Store.memoize, (aside_invalidateEach _ _).layout, layout_modifyLayout]
    by_cases hk : k = l
    · rw [if_pos ⟨hk, hl⟩, if_pos hk]
    · rw [if_neg fun hc => hk hc.1, if_neg hk]
  constructor
  case eq =>
    rw [Store.memoize, invalidateEach_eq]
    rfl
  case size =>
    rw [Store.memoize, (aside_invalidateEach _ _).layouts]
    simp [modifyLayout]
  case sizeLookups =>
    rw [Store.memoize, size_lookups_invalidateEach]
    rfl
  case layout =>
    intro k
    rw [hlayout]
    split
    · rename_i hk
      rw [hk, Layout.memoize, Layout.record_of_mem hn]
    · rfl
  case memo =>
    intro k m
    rw [hlayout]
    by_cases hk : k = l
    · subst hk
      rw [if_pos rfl, Layout.memo_memoize]
      simp
    · rw [if_neg hk, if_neg fun hc => hk hc.1]
  case memos =>
    intro k m hm
    rw [hlayout] at hm
    split at hm
    · rename_i hk
      rcases List.mem_append.1 hm with hm | hm
      · exact Or.inl (hk ▸ List.mem_of_mem_filter hm)
      · exact Or.inr ⟨hk, List.mem_singleton.1 hm⟩
    · exact Or.inl hm
  case valid =>
    intro g
    rw [Store.memoize, lookupValid_invalidateEach]
    refine and_congr Iff.rfl ?_
    cases (s.layout l).memo? n with
    | none => simp
    | some r' => simp

/-- **A result with a trace may be remembered**; a read site that has the one that it replaces may not
    trust it any more. -/
theorem Remembers.memoize (h : s.Remembers alive pending) {l : LayoutId} {r : LookupResult}
    (hg : r.guard.index < s.lookups.size) (ht : s.Trace pending n l r.finding) :
    (s.memoize l n r).Remembers alive pending := by
  have hm := memoizes_memoize ht.recorded r
  generalize s.memoize l n r = s₁ at *
  have hcache : ∀ c, s₁.cache c = s.cache c := fun c => by rw [hm.eq]; rfl
  have hstable : s₁.stable = s.stable := by rw [hm.eq]; rfl
  have hfinding : ∀ f, s₁.findingValid f = s.findingValid f := fun f => by
    rw [hm.eq]
    cases f <;> rfl
  -- A trace reads bindings and links, which remembering changes nothing of.
  have hmap : ∀ {m k f}, s.Trace pending m k f → s₁.findingValid f = true →
      s₁.Trace pending m k f := fun htrace hv =>
    htrace.map (fun k hk => by rw [hm.layout k]; exact hk) (fun k _ => by rw [hm.layout k])
      (fun _ => id) (fun k _ => Or.inl (view_of_layout _ (by rw [hm.layout k]) (by rw [hm.layout k])
        hstable)) hv
  have hnested : s₁.Nested := h.toNested.recorded (by rw [hm.eq]) (fun k => by rw [hm.layout k])
    fun k m hk => Or.inl (by rwa [hm.layout k] at hk)
  refine { hnested with
    memoGuards := ?memoGuards
    cacheGuards := ?cacheGuards
    traced := ?traced
    cached := ?cached
    upward := ?upward }
  case memoGuards =>
    intro k m r' hr
    rw [hm.sizeLookups]
    rw [hm.memo] at hr
    split at hr
    · exact Option.some.inj hr ▸ hg
    · exact h.memoGuards k m r' hr
  case cacheGuards =>
    intro c k r' hr
    rw [hcache] at hr
    rw [hm.sizeLookups]
    refine (h.cacheGuards c k r' hr).imp_left fun hk => ?_
    simpa only [Allocated, hm.size] using hk
  case traced =>
    intro k m r' hk hr hv
    have hvr := Bool.and_eq_true_iff.1 (resultValid_eq s₁ r' ▸ hv)
    rw [hm.memo] at hr
    split at hr
    · rename_i hkm
      obtain ⟨rfl, rfl⟩ := hkm
      obtain rfl := Option.some.inj hr
      exact hmap ht hvr.2
    · refine hmap (h.traced k m r' hk hr ?_) hvr.2
      rw [resultValid_eq, Bool.and_eq_true]
      exact ⟨((hm.valid _).1 hvr.1).1, (hfinding _).symm.trans hvr.2⟩
  case cached =>
    intro c k r' hr hk hv
    rw [hcache] at hr ⊢
    obtain ⟨hold, hkept⟩ := (hm.valid _).1 hv
    have hmemo := h.cached c k r' hr hk hold
    rw [hm.memo, if_neg]
    · exact hmemo
    · rintro ⟨rfl, hname⟩
      exact hkept r' (hname ▸ hmemo) rfl
  case upward =>
    intro k p hk hp
    rw [hm.layout k] at hp
    exact h.upward k p hk hp

theorem LookupResult.guard_toResult (f : Finding) (g : LookupId) : (f.toResult g).guard = g := by
  cases f <;> rfl

theorem LookupResult.finding_toResult (f : Finding) (g : LookupId) :
    (f.toResult g).finding = f := by
  cases f <;> rfl

/-- Two stores bind the same values to the same names. -/
structure SameScopes (s s' : Store) : Prop where
  activations : s'.activations = s.activations
  slots : ∀ k, (s'.layout k).slots = (s.layout k).slots
  enclosing : ∀ k, (s'.layout k).enclosing = (s.layout k).enclosing
  contexts : s'.contexts = s.contexts

theorem SameScopes.refl (s : Store) : s.SameScopes s := ⟨rfl, fun _ => rfl, fun _ => rfl, rfl⟩

theorem SameScopes.trans (h : s.SameScopes s₁) (h' : s₁.SameScopes s₂) : s.SameScopes s₂ :=
  ⟨h'.activations.trans h.activations, fun k => (h'.slots k).trans (h.slots k),
    fun k => (h'.enclosing k).trans (h.enclosing k), h'.contexts.trans h.contexts⟩

theorem SameScopes.layoutOf (h : s.SameScopes s₁) (b : ActivationId) :
    s₁.layoutOf b = s.layoutOf b := by
  simp only [Store.layoutOf, activation, h.activations]

theorem SameScopes.readName (h : s.SameScopes s₁) (b : ActivationId) (n : Name) :
    s₁.readName b n = s.readName b n := by
  have hindex : s₁.slotOf? b n = s.slotOf? b n := by
    rw [slotOf?, h.layoutOf, Layout.slotIndex?, h.slots, ← Layout.slotIndex?, ← slotOf?]
  have hread : s₁.read b = s.read b := funext fun i => by
    simp only [read, readIn, content, activation, h.activations, h.contexts]
  rw [Store.readName, hindex, hread, ← Store.readName]

theorem SameScopes.lookupDynamic (h : s.SameScopes s₁) (b : ActivationId) (n : Name) :
    s₁.lookupDynamic b n = s.lookupDynamic b n := by
  have hfrom : ∀ fuel c, s₁.lookupFrom n fuel c = s.lookupFrom n fuel c := by
    intro fuel
    induction fuel with
    | zero => exact fun _ => rfl
    | succ fuel ih =>
        intro c
        cases c with
        | none => rfl
        | some c =>
            rw [lookupFrom, lookupFrom, h.readName, ih, activation, h.activations, ← activation]
  rw [Store.lookupDynamic, hfrom, chainBound, h.activations, ← chainBound, ← Store.lookupDynamic]

/-- A result that a layout remembers and that is valid. -/
structure Standing (s : Store) (l : LayoutId) (n : Name) (r : LookupResult) : Prop where
  memo : (s.layout l).memo? n = some r
  valid : s.resultValid r = true

/-- The store after a walk has been recorded. -/
def walked (s : Store) (label : String) (n : Name) (path : List ActivationId) : Store :=
  (s.addLookup label).recordWalk n path

/-- A walk that has been recorded is a trace, and changes nothing else. -/
theorem remembers_walked (h : s.Remembers alive pending) (hs : s.Sound)
    (ha : s.Live (.activation a)) {fuel : Nat} {f : Finding} {path : List ActivationId}
    (hw : s.walk n fuel a = some (f, path)) (label : String) :
    (s.walked label n path).Remembers alive pending ∧ s.SameScopes (s.walked label n path)
      ∧ (s.walked label n path).Trace pending n (s.layoutOf a) f := by
  have hlive := live_of_mem_path hs.wellFormed ha hw
  have hs₁ := ((Leads.refl s).aside (aside_addLookup s label)).wellFormed hs.wellFormed
  have hpart : ∀ {α : Type} (part : Layout → α),
      (∀ (x : Layout) names, part { x with recorded := names } = part x) → ∀ k,
      part ((s.walked label n path).layout k) = part (s.layout k) :=
    fun part hpart => part_recordWalk part hpart (s.addLookup label) n path
  have heq : s.walked label n path
      = { s.addLookup label with layouts := (s.walked label n path).layouts } :=
    ((s.addLookup label).recordWalk_eq n path).1
  have hview : ∀ k, (s.walked label n path).view k n = s.view k n := fun k =>
    view_of_layout n (hpart Layout.slots (fun _ _ => rfl) k)
      (hpart Layout.singleton (fun _ _ => rfl) k) (by rw [heq]; rfl)
  refine ⟨(h.addLookup hs.wellFormed label).recordWalk hs₁ n fun b hb =>
      ⟨(hlive b hb).allocated hs.wellFormed, (hs.current (hlive b hb)).named⟩,
    ⟨by rw [heq]; rfl, hpart Layout.slots fun _ _ => rfl, hpart Layout.enclosing fun _ _ => rfl,
      by rw [heq]; rfl⟩, ?_⟩
  refine trace_of_walk hs h.toNested ha hw hview (hpart Layout.enclosing fun _ _ => rfl) ?_
  intro b hb
  refine (((s.addLookup label).mem_recordWalk n n path) _).2 (Or.inr ⟨rfl, ?_, b, hb, rfl⟩)
  exact ((hlive b hb).layoutOf hs.wellFormed).allocated hs.wellFormed

/-- **What a walk leaves behind is remembered, and stands.** -/
theorem remembers_memoize_walked (h : s.Remembers alive pending) (hs : s.Sound)
    (ha : s.Live (.activation a)) {fuel : Nat} {f : Finding} {path : List ActivationId}
    (hw : s.walk n fuel a = some (f, path)) (label : String) {r : LookupResult}
    (hr : r = f.toResult ⟨s.lookups.size⟩) :
    ((s.walked label n path).memoize (s.layoutOf a) n r).Remembers alive pending
      ∧ s.SameScopes ((s.walked label n path).memoize (s.layoutOf a) n r)
      ∧ ((s.walked label n path).memoize (s.layoutOf a) n r).Standing (s.layoutOf a) n r := by
  obtain ⟨hrem, hscopes, htrace⟩ := remembers_walked h hs ha hw label
  have heq := ((s.addLookup label).recordWalk_eq n path).1
  have hsame := part_recordWalk (Layout.memo? · n) (fun _ _ => rfl) (s.addLookup label) n path
    (s.layoutOf a)
  rw [← walked] at heq hsame
  have hmemo := memoizes_memoize htrace.recorded r
  have hguard : r.guard = ⟨s.lookups.size⟩ := hr ▸ LookupResult.guard_toResult f _
  have hfinding : r.finding = f := hr ▸ LookupResult.finding_toResult f _
  have hsize : r.guard.index < (s.walked label n path).lookups.size := by
    rw [hguard, heq]
    exact Nat.lt_of_lt_of_eq (Nat.lt_succ_self _) (Array.size_push _).symm
  refine ⟨hrem.memoize hsize (hfinding ▸ htrace),
    ⟨by rw [hmemo.eq]; exact hscopes.activations, fun k => by rw [hmemo.layout k, hscopes.slots],
      fun k => by rw [hmemo.layout k, hscopes.enclosing], by rw [hmemo.eq]; exact hscopes.contexts⟩,
    by rw [hmemo.memo, if_pos ⟨rfl, rfl⟩], ?_⟩
  rw [resultValid_eq, hguard, hfinding, Bool.and_eq_true]
  constructor
  · refine (hmemo.valid _).2 ⟨?_, fun r' hr' hold => ?_⟩
    · rw [heq]
      exact (s.lookupValid_addLookup label ⟨s.lookups.size⟩).trans (if_pos rfl)
    · -- The guard of the result that is replaced is older.
      have hlt := h.memoGuards _ _ _ (hsame.symm.trans hr')
      rw [← hold] at hlt
      exact absurd hlt (Nat.lt_irrefl _)
  · have hfound := findingValid_of_walk hs hw
    rw [hmemo.eq, heq]
    cases f <;> exact hfound

/-- **Resolving a name answers a result that stands**, and keeps every other that is remembered. -/
theorem remembers_resolve (h : s.Remembers alive pending) (hs : s.Sound)
    (ha : s.Live (.activation a)) (n : Name) :
    ((resolve a n).run s).2.Remembers alive pending ∧ s.SameScopes ((resolve a n).run s).2
      ∧ ∀ r, ((resolve a n).run s).1 = some r →
        ((resolve a n).run s).2.Standing (s.layoutOf a) n r := by
  -- A name is resolved anew if nothing valid is remembered for it.
  have hanew : ((resolveAnew a n).run s).2.Remembers alive pending
      ∧ s.SameScopes ((resolveAnew a n).run s).2
      ∧ ∀ r, ((resolveAnew a n).run s).1 = some r →
        ((resolveAnew a n).run s).2.Standing (s.layoutOf a) n r := by
    rw [resolveAnew_run]
    split
    · exact ⟨h, .refl s, by simp⟩
    · rename_i f path hw
      obtain ⟨hrem, hsame, hstands⟩ := remembers_memoize_walked h hs ha hw
        ("lookup " ++ n.debug ++ " from " ++ (s.layout (s.layoutOf a)).label) rfl
      refine ⟨hrem, hsame, ?_⟩
      rintro r ⟨rfl⟩
      exact hstands
  rw [resolve_run]
  split
  · rename_i r hm
    split
    · rename_i hv
      refine ⟨h, .refl s, ?_⟩
      rintro r' ⟨rfl⟩
      exact ⟨hm, hv⟩
    · exact hanew
  · exact hanew

/-- Resolving a name changes no read site. -/
theorem cache_resolve (s : Store) (a : ActivationId) (n : Name) (c : CacheId) :
    ((resolve a n).run s).2.cache c = s.cache c := by
  have hanew : ((resolveAnew a n).run s).2.cache c = s.cache c := by
    rw [resolveAnew_run]
    split
    · rfl
    · rw [remembering]
      dsimp only
      rw [Store.memoize, cache, (aside_invalidateEach _ _).caches, modifyLayout, (recordWalk_eq _ n _).1]
      rfl
  rw [resolve_run]
  split
  · split
    · rfl
    · exact hanew
  · exact hanew

/-- A read site may keep a result that stands. -/
theorem Remembers.modifyCache (h : s.Remembers alive pending) {c : CacheId} {l : LayoutId}
    {r : LookupResult} (hr : s.Standing l (s.cache c).name r) :
    (s.modifyCache c fun cache => { cache with cached := some (l, r) }).Remembers alive pending := by
  have hcache : ∀ d, (s.modifyCache c fun cache => { cache with cached := some (l, r) }).cache d
      = if d.index = c.index ∧ c.index < s.caches.size then { s.cache c with cached := some (l, r) }
        else s.cache d := fun d =>
    Array.getD_modify s.caches c.index d.index _
  have hnested : (s.modifyCache c fun cache => { cache with cached := some (l, r) }).Nested :=
    h.toNested.same ⟨fun _ => Iff.rfl, fun _ => rfl, fun _ => rfl, fun _ => rfl, fun _ => rfl,
      fun _ => rfl, fun _ => rfl⟩ fun _ _ => Or.inl
  refine ⟨⟨hnested, h.memoGuards, fun d k r' hd => ?_, fun k m r' hk hm hv => ?_,
    fun d k r' hd hk hv => ?_⟩, h.upward⟩
  · rw [hcache] at hd
    split at hd
    · obtain ⟨rfl, rfl⟩ := Prod.mk.inj (Option.some.inj hd)
      exact ⟨allocated_of_memo hr.memo, h.memoGuards _ _ _ hr.memo⟩
    · exact h.cacheGuards d k r' hd
  · exact (h.traced k m r' hk hm hv).map (fun _ => id) (fun _ _ => rfl) (fun _ => id)
      (fun _ _ => Or.inl rfl) (Bool.and_eq_true_iff.1 (resultValid_eq s r' ▸ hv)).2
  · rw [hcache] at hd ⊢
    split at hd
    · rename_i hdc
      obtain ⟨rfl, rfl⟩ := Prod.mk.inj (Option.some.inj hd)
      rw [if_pos hdc]
      exact hr.memo
    · rename_i hdc
      rw [if_neg hdc]
      exact h.cached d k r' hd hk hv

theorem remembers_cachedRead (h : s.Remembers alive pending) (hs : s.Sound)
    (ha : s.Live (.activation a)) (c : CacheId) :
    ((cachedRead c a).run s).2.Remembers alive pending
      ∧ s.SameScopes ((cachedRead c a).run s).2 := by
  rw [cachedRead_run]
  split
  · exact ⟨h, .refl s⟩
  · exact ⟨h, .refl s⟩
  · obtain ⟨hrem, hsame, hstands⟩ := remembers_resolve h hs ha (s.cache c).name
    have hcache := cache_resolve s a (s.cache c).name c
    generalize (resolve a (s.cache c).name).run s = result at *
    rcases result with ⟨_ | r, s₁⟩
    · exact ⟨hrem, hsame⟩
    · refine ⟨hrem.modifyCache ?_, hsame.activations, hsame.slots, hsame.enclosing,
        hsame.contexts⟩
      dsimp only at hcache
      rw [hcache]
      exact hstands r rfl

end Store

end ScopeCall
