import ScopeCall.Proofs.Tables

/-!
# `ScopeCall.Proofs.Sparing` — changes that leave every binding as it is

Operations are sequences of small changes. Each change is shown to lead on from the store in which the
operation began, so that what the operation makes on the way counts as new. Most changes concern guards,
links and remembered lookups only; they spare the bindings: slots, contents and stable values.

## Contents
- **Leading on, change by change.** One lemma per kind of change, relative to an earlier store.
- **Sparing.** `Store.Spares`: leading on with all slots, contents and stable values unchanged.
- **Sweeps.** `sweep_induction`, and `spares_sweep`: forgetting lookups spares the bindings.
-/

namespace ScopeCall

namespace Store

/-! ## Leading on, change by change -/

/-- Two stores agree on all objects that hold references, and on what is held from outside. -/
structure Aside (s s' : Store) : Prop where
  layouts : s'.layouts = s.layouts
  activations : s'.activations = s.activations
  callables : s'.callables = s.callables
  heap : s'.heap = s.heap
  stables : s'.stables = s.stables
  caches : s'.caches = s.caches
  sites : s'.sites = s.sites
  stack : s'.stack = s.stack
  handles : s'.handles = s.handles

namespace Aside

variable {s s' : Store}

theorem allocated (h : s.Aside s') (r : Ref) : s'.Allocated r ↔ s.Allocated r := by
  cases r <;> simp only [Allocated, h.layouts, h.activations, h.callables, h.heap, h.stables, h.caches,
    h.sites]

theorem refs (h : s.Aside s') (q : Ref) : s'.refs q = s.refs q := by
  cases q <;> simp only [Store.refs, h.layouts, h.activations, h.callables, h.heap, h.stables,
    h.caches, h.sites]

theorem roots (h : s.Aside s') : s'.roots = s.roots := by
  simp only [Store.roots, h.stack, h.handles]

theorem layout (h : s.Aside s') (l : LayoutId) : s'.layout l = s.layout l := by
  simp only [Store.layout, h.layouts]

theorem activation (h : s.Aside s') (a : ActivationId) : s'.activation a = s.activation a := by
  simp only [Store.activation, h.activations]

theorem stable (h : s.Aside s') (t : StableId) : s'.stable t = s.stable t := by
  simp only [Store.stable, h.stables]

end Aside

theorem aside_invalidate (s : Store) (g : GuardId) : s.Aside (s.invalidate g) :=
  ⟨rfl, rfl, rfl, rfl, rfl, rfl, rfl, rfl, rfl⟩

theorem aside_addGuard (s : Store) (label : String) : s.Aside (s.addGuard label) :=
  ⟨rfl, rfl, rfl, rfl, rfl, rfl, rfl, rfl, rfl⟩

theorem aside_addLookup (s : Store) (label : String) : s.Aside (s.addLookup label) :=
  ⟨rfl, rfl, rfl, rfl, rfl, rfl, rfl, rfl, rfl⟩

theorem Aside.trans {s s' s'' : Store} (h : s.Aside s') (h' : s'.Aside s'') : s.Aside s'' :=
  ⟨h'.layouts.trans h.layouts, h'.activations.trans h.activations, h'.callables.trans h.callables,
    h'.heap.trans h.heap, h'.stables.trans h.stables, h'.caches.trans h.caches,
    h'.sites.trans h.sites, h'.stack.trans h.stack, h'.handles.trans h.handles⟩

theorem aside_invalidateEach (s : Store) (rs : List LookupId) : s.Aside (s.invalidateEach rs) := by
  induction rs generalizing s with
  | nil => exact ⟨rfl, rfl, rfl, rfl, rfl, rfl, rfl, rfl, rfl⟩
  | cons r rs ih =>
      have hfirst : s.Aside (s.invalidateLookup r) := ⟨rfl, rfl, rfl, rfl, rfl, rfl, rfl, rfl, rfl⟩
      exact hfirst.trans (ih _)

namespace Leads

variable {s s₁ s₂ : Store}

/-- One more change, given which references are new in it. -/
theorem extend (h : s.Leads s₁) (grows : ∀ r, s₁.Allocated r → s₂.Allocated r)
    (roots : ∀ r ∈ s₂.roots, r ∈ s₁.roots ∨ s.Within s₂ r)
    (refs : ∀ q, ∀ r ∈ s₂.refs q, r ∈ s₁.refs q ∨ s.Within s₂ r)
    (weak : ∀ l, ∀ r ∈ (s₂.layout l).weakRefs, r ∈ (s₁.layout l).weakRefs ∨ s₂.Allocated r) :
    s.Leads s₂ where
  grows r hr := grows r (h.grows r hr)
  roots r hr := (roots r hr).elim
    (fun hin => (h.roots r hin).imp_right fun hn => ⟨hn.1, grows r hn.2⟩) id
  refs q r hr := (refs q r hr).elim
    (fun hin => (h.refs q r hin).imp_right (Or.imp_right fun hn => ⟨hn.1, grows r hn.2⟩)) Or.inr
  weak l r hr := (weak l r hr).elim (fun hin => (h.weak l r hin).imp_right (grows r)) Or.inr

theorem aside (h : s.Leads s₁) (hs : s₁.Aside s₂) : s.Leads s₂ := by
  refine h.extend (fun r => (hs.allocated r).2) (fun r hr => ?_) (fun q r hr => ?_) fun l r hr => ?_
  · exact Or.inl (hs.roots ▸ hr)
  · exact Or.inl (hs.refs q ▸ hr)
  · exact Or.inl (hs.layout l ▸ hr)

theorem allocated_modifyLayout (s : Store) (l : LayoutId) (f : Layout → Layout) (r : Ref) :
    (s.modifyLayout l f).Allocated r ↔ s.Allocated r := by
  cases r <;> simp [Allocated, Store.modifyLayout]

theorem allocated_modifyActivation (s : Store) (a : ActivationId) (f : Activation → Activation) (r : Ref) :
    (s.modifyActivation a f).Allocated r ↔ s.Allocated r := by
  cases r <;> simp [Allocated, Store.modifyActivation]

theorem allocated_modifyCache (s : Store) (c : CacheId) (f : LookupCache → LookupCache) (r : Ref) :
    (s.modifyCache c f).Allocated r ↔ s.Allocated r := by
  cases r <;> simp [Allocated, Store.modifyCache]

theorem allocated_invalidateStable (s : Store) (t : StableId) (r : Ref) :
    (s.invalidateStable t).Allocated r ↔ s.Allocated r := by
  cases r <;> simp [Allocated, Store.invalidateStable]

theorem modifyLayout (h : s.Leads s₁) {l : LayoutId} {f : Layout → Layout}
    (hrefs : ∀ r ∈ (f (s₁.layout l)).refs, r ∈ (s₁.layout l).refs ∨ s.Within s₁ r)
    (hweak : ∀ r ∈ (f (s₁.layout l)).weakRefs, r ∈ (s₁.layout l).weakRefs ∨ s₁.Allocated r) :
    s.Leads (s₁.modifyLayout l f) := by
  have halloc := fun r => (allocated_modifyLayout s₁ l f r).2
  refine h.extend halloc (fun r hr => Or.inl hr) (fun q r hr => ?_) fun k r hr => ?_
  · rcases mem_refs_modifyLayout hr with hin | ⟨hl, rfl, hin⟩
    · exact Or.inl hin
    · rw [refs_layout hl]
      exact (hrefs r hin).imp_right (Or.imp_right fun hn => ⟨hn.1, halloc r hn.2⟩)
  · rw [layout_modifyLayout] at hr
    split at hr
    · rename_i hk
      rw [hk.1]
      exact (hweak r hr).imp_right (halloc r)
    · exact Or.inl hr

theorem modifyActivation (h : s.Leads s₁) {a : ActivationId} {f : Activation → Activation}
    (hrefs : ∀ r ∈ (f (s₁.activation a)).refs, r ∈ (s₁.activation a).refs ∨ s.Within s₁ r) :
    s.Leads (s₁.modifyActivation a f) := by
  have halloc := fun r => (allocated_modifyActivation s₁ a f r).2
  refine h.extend halloc (fun r hr => Or.inl hr) (fun q r hr => ?_) fun l r hr => Or.inl hr
  rcases mem_refs_modifyActivation hr with hin | ⟨ha, rfl, hin⟩
  · exact Or.inl hin
  · rw [refs_activation ha]
    exact (hrefs r hin).imp_right (Or.imp_right fun hn => ⟨hn.1, halloc r hn.2⟩)

theorem modifyCache (h : s.Leads s₁) {c : CacheId} {f : LookupCache → LookupCache}
    (hrefs : ∀ r ∈ (f (s₁.cache c)).refs, s.Within s₁ r) : s.Leads (s₁.modifyCache c f) := by
  have halloc := fun r => (allocated_modifyCache s₁ c f r).2
  refine h.extend halloc (fun r hr => Or.inl hr) (fun q r hr => ?_) fun l r hr => Or.inl hr
  rcases mem_refs_modifyCache hr with hin | ⟨-, -, hin⟩
  · exact Or.inl hin
  · exact Or.inr ((hrefs r hin).imp_right fun hn => ⟨hn.1, halloc r hn.2⟩)

theorem invalidateStable (h : s.Leads s₁) (t : StableId) : s.Leads (s₁.invalidateStable t) := by
  refine h.extend (fun r => (allocated_invalidateStable s₁ t r).2) (fun r hr => Or.inl hr)
    (fun q r hr => ?_) fun l r hr => Or.inl hr
  rw [refs_invalidateStable] at hr
  exact Or.inl hr

theorem addStable (h : s.Leads s₁) (label : String) {v : Option Value}
    (hv : ∀ r ∈ (v.map Value.refs).getD [], s.Within s₁ r) : s.Leads (s₁.addStable label v) := by
  have halloc : ∀ r, s₁.Allocated r → (s₁.addStable label v).Allocated r := by
    intro r hr
    cases r <;> simp only [Allocated, Store.addStable, Array.size_push] at hr ⊢ <;> omega
  refine h.extend halloc (fun r hr => Or.inl hr) (fun q r hr => ?_) fun l r hr => Or.inl hr
  cases q with
  | stable t =>
      simp only [Store.refs, Store.addStable, Array.getElem?_push] at hr
      split at hr
      · exact Or.inr ((hv r hr).imp_right fun hn => ⟨hn.1, halloc r hn.2⟩)
      · exact Or.inl hr
  | _ => exact Or.inl hr

theorem addLayout (h : s.Leads s₁) {l : Layout} (hrefs : l.refs = []) (hweak : l.weakRefs = []) :
    s.Leads (s₁.addLayout l) := by
  have halloc : ∀ r, s₁.Allocated r → (s₁.addLayout l).Allocated r := by
    intro r hr
    cases r <;> simp only [Allocated, Store.addLayout, Array.size_push] at hr ⊢ <;> omega
  refine h.extend halloc (fun r hr => Or.inl hr) (fun q r hr => ?_) fun k r hr => ?_
  · cases q with
    | layout k =>
        simp only [Store.refs, Store.addLayout, Array.getElem?_push] at hr
        split at hr
        · simp [hrefs] at hr
        · exact Or.inl hr
    | _ => exact Or.inl hr
  · rw [layout_addLayout] at hr
    split at hr
    · simp [hweak] at hr
    · exact Or.inl hr

theorem addActivation (h : s.Leads s₁) {a : Activation} (hrefs : ∀ r ∈ a.refs, s.Within s₁ r) :
    s.Leads (s₁.addActivation a) := by
  have halloc : ∀ r, s₁.Allocated r → (s₁.addActivation a).Allocated r := by
    intro r hr
    cases r <;> simp only [Allocated, Store.addActivation, Array.size_push] at hr ⊢ <;> omega
  refine h.extend halloc (fun r hr => Or.inl hr) (fun q r hr => ?_) fun k r hr => Or.inl hr
  cases q with
  | activation b =>
      simp only [Store.refs, Store.addActivation, Array.getElem?_push] at hr
      split at hr
      · exact Or.inr ((hrefs r hr).imp_right fun hn => ⟨hn.1, halloc r hn.2⟩)
      · exact Or.inl hr
  | _ => exact Or.inl hr

theorem addCache (h : s.Leads s₁) (n : Name) : s.Leads (s₁.addCache n) := by
  have halloc : ∀ r, s₁.Allocated r → (s₁.addCache n).Allocated r := by
    intro r hr
    cases r <;> simp only [Allocated, Store.addCache, Array.size_push] at hr ⊢ <;> omega
  refine h.extend halloc (fun r hr => Or.inl hr) (fun q r hr => ?_) fun k r hr => Or.inl hr
  cases q with
  | cache c =>
      simp only [Store.refs, Store.addCache, Array.getElem?_push] at hr
      split at hr
      · simp [LookupCache.refs] at hr
      · exact Or.inl hr
  | _ => exact Or.inl hr

end Leads

/-! ## Sparing -/

/-- `s₁` comes after `s`, and no binding has changed on the way. -/
structure Spares (s s₁ : Store) : Prop where
  leads : s.Leads s₁
  held : s₁.roots = s.roots
  activations : ∀ a, s₁.Allocated (.activation a) → s.Allocated (.activation a)
  slots : ∀ l, (s₁.layout l).slots = (s.layout l).slots
  kind : ∀ l, s.Allocated (.layout l) → (s₁.layout l).kind = (s.layout l).kind
  singleton : ∀ l, (s₁.layout l).singleton = (s.layout l).singleton
  layoutOf : ∀ a, s₁.layoutOf a = s.layoutOf a
  contents : ∀ a, (s₁.activation a).contents = (s.activation a).contents
  stable : ∀ t, s₁.stable t = s.stable t

namespace Spares

variable {s s₁ s₂ : Store}

theorem refl (s : Store) : s.Spares s :=
  ⟨.refl s, rfl, fun _ h => h, fun _ => rfl, fun _ _ => rfl, fun _ => rfl, fun _ => rfl, fun _ => rfl,
    fun _ => rfl⟩

theorem aside (h : s.Spares s₁) (hs : s₁.Aside s₂) : s.Spares s₂ where
  leads := h.leads.aside hs
  held := hs.roots.trans h.held
  activations a ha := h.activations a ((hs.allocated _).1 ha)
  slots l := by rw [hs.layout, h.slots]
  kind l hl := by rw [hs.layout, h.kind l hl]
  singleton l := by rw [hs.layout, h.singleton]
  layoutOf a := (congrArg Activation.layout (hs.activation a)).trans (h.layoutOf a)
  contents a := by rw [hs.activation, h.contents]
  stable t := by rw [hs.stable, h.stable]

theorem modifyLayout (h : s.Spares s₁) {l : LayoutId} {f : Layout → Layout}
    (hslots : (f (s₁.layout l)).slots = (s₁.layout l).slots)
    (hkind : (f (s₁.layout l)).kind = (s₁.layout l).kind)
    (hsingleton : (f (s₁.layout l)).singleton = (s₁.layout l).singleton)
    (hrefs : ∀ r ∈ (f (s₁.layout l)).refs, r ∈ (s₁.layout l).refs ∨ s.Within s₁ r)
    (hweak : ∀ r ∈ (f (s₁.layout l)).weakRefs, r ∈ (s₁.layout l).weakRefs ∨ s₁.Allocated r) :
    s.Spares (s₁.modifyLayout l f) where
  leads := h.leads.modifyLayout hrefs hweak
  held := h.held
  activations a ha := h.activations a ha
  slots k := (layout_modifyLayout_congr _ Layout.slots l k f hslots).trans (h.slots k)
  kind k hk := (layout_modifyLayout_congr _ Layout.kind l k f hkind).trans (h.kind k hk)
  singleton k :=
    (layout_modifyLayout_congr _ Layout.singleton l k f hsingleton).trans (h.singleton k)
  layoutOf := h.layoutOf
  contents := h.contents
  stable := h.stable

theorem modifyActivation (h : s.Spares s₁) {a : ActivationId} {f : Activation → Activation}
    (hlayout : (f (s₁.activation a)).layout = (s₁.activation a).layout)
    (hcontents : (f (s₁.activation a)).contents = (s₁.activation a).contents)
    (hrefs : ∀ r ∈ (f (s₁.activation a)).refs, r ∈ (s₁.activation a).refs ∨ s.Within s₁ r) :
    s.Spares (s₁.modifyActivation a f) where
  leads := h.leads.modifyActivation hrefs
  held := h.held
  activations b hb := h.activations b ((Leads.allocated_modifyActivation _ a f _).1 hb)
  slots := h.slots
  kind := h.kind
  singleton := h.singleton
  layoutOf b :=
    (activation_modifyActivation_congr _ Activation.layout a b f hlayout).trans (h.layoutOf b)
  contents b :=
    (activation_modifyActivation_congr _ Activation.contents a b f hcontents).trans
      (h.contents b)
  stable := h.stable

theorem modifyCache (h : s.Spares s₁) {c : CacheId} {f : LookupCache → LookupCache}
    (hrefs : ∀ r ∈ (f (s₁.cache c)).refs, s.Within s₁ r) : s.Spares (s₁.modifyCache c f) :=
  ⟨h.leads.modifyCache hrefs, h.held, h.activations, h.slots, h.kind, h.singleton, h.layoutOf,
    h.contents, h.stable⟩

theorem addCache (h : s.Spares s₁) (n : Name) : s.Spares (s₁.addCache n) :=
  ⟨h.leads.addCache n, h.held, h.activations, h.slots, h.kind, h.singleton, h.layoutOf, h.contents,
    h.stable⟩

theorem addLayout (h : s.Spares s₁) {l : Layout} (hslots : l.slots = #[])
    (hsingleton : l.singleton = none) (hmemos : l.memos = []) (hchildren : l.children = [])
    (henclosing : l.enclosing = none) : s.Spares (s₁.addLayout l) := by
  have hbeyond : ∀ k : LayoutId, k.index = s₁.layouts.size →
      (s₁.layout k).slots = #[] ∧ (s₁.layout k).singleton = none := by
    intro k hk
    have : s₁.layout k = default := by
      simp [Store.layout, Array.getElem?_eq_none hk.ge]
    rw [this]
    exact ⟨rfl, rfl⟩
  have hrefs : l.refs = [] := by simp [Layout.refs, hslots, hmemos]
  have hweak : l.weakRefs = [] := by simp [Layout.weakRefs, hchildren, henclosing, hsingleton]
  refine ⟨h.leads.addLayout hrefs hweak, h.held, h.activations, fun k => ?_, fun k hk => ?_,
    fun k => ?_, h.layoutOf, h.contents, h.stable⟩
  · rw [layout_addLayout, ← h.slots]
    split
    · rename_i hk
      rw [hslots, (hbeyond k hk).1]
    · rfl
  · rw [layout_addLayout, if_neg, h.kind k hk]
    exact Nat.ne_of_lt (h.leads.grows _ hk)
  · rw [layout_addLayout, ← h.singleton]
    split
    · rename_i hk
      rw [hsingleton, (hbeyond k hk).2]
    · rfl

end Spares

/-! ## Sweeps -/

end Store

/-- `l'` is `l` with part of what was looked up through it forgotten. -/
structure Layout.Forgot (l l' : Layout) : Prop where
  eq : l' = { l with recorded := l'.recorded, memos := l'.memos }
  recorded : ∀ n ∈ l'.recorded, n ∈ l.recorded
  memos : ∀ m ∈ l'.memos, m ∈ l.memos

theorem Layout.forgot_forgetNames (names : List Name) (l : Layout) :
    l.Forgot (l.forgetNames names).layout := by
  rw [Layout.forgetNames]
  split
  · exact ⟨rfl, fun n hn => List.mem_of_mem_filter hn, fun m hm => List.mem_of_mem_filter hm⟩
  · exact ⟨rfl, fun n hn => hn, fun m hm => hm⟩

theorem Layout.forgot_forgetAll (l : Layout) : l.Forgot l.forgetAll.layout :=
  ⟨rfl, fun _ hn => absurd hn List.not_mem_nil, fun _ hm => absurd hm List.not_mem_nil⟩

theorem Layout.Forgot.refl (l : Layout) : l.Forgot l := ⟨rfl, fun _ h => h, fun _ h => h⟩

theorem Layout.Forgot.trans {l l' l'' : Layout} (h : l.Forgot l') (h' : l'.Forgot l'') :
    l.Forgot l'' where
  eq := by rw [h'.eq, h.eq]
  recorded n hn := h.recorded n (h'.recorded n hn)
  memos m hm := h.memos m (h'.memos m hm)

theorem Layout.Forgot.slots {l l' : Layout} (h : l.Forgot l') : l'.slots = l.slots := by
  rw [h.eq]

theorem Layout.Forgot.kind {l l' : Layout} (h : l.Forgot l') : l'.kind = l.kind := by
  rw [h.eq]

theorem Layout.Forgot.singleton {l l' : Layout} (h : l.Forgot l') :
    l'.singleton = l.singleton := by
  rw [h.eq]

theorem Layout.Forgot.refs {l l' : Layout} (h : l.Forgot l') {r : Ref} (hr : r ∈ l'.refs) :
    r ∈ l.refs := by
  simp only [Layout.refs, h.slots, List.mem_append, List.mem_flatMap] at hr ⊢
  exact hr.imp_right fun ⟨m, hm, hin⟩ => ⟨m, h.memos m hm, hin⟩

theorem Layout.Forgot.weakRefs {l l' : Layout} (h : l.Forgot l') : l'.weakRefs = l.weakRefs := by
  rw [h.eq]
  rfl

namespace Store

/-- One visit of a sweep. -/
def visited (s : Store) (visit : Layout → Visit) (l : LayoutId) : Store :=
  (s.invalidateEach (visit (s.layout l)).dropped).modifyLayout l fun _ => (visit (s.layout l)).layout

/-- What every visit preserves, a sweep preserves. -/
theorem sweep_induction {P : Store → Prop} {visit : Layout → Visit}
    (step : ∀ s l, P s → P (s.visited visit l)) (n : Nat) (pending : List LayoutId) {s : Store}
    (h : P s) : P (sweep visit n pending s) := by
  induction n generalizing pending s with
  | zero => exact h
  | succ n ih =>
      cases pending with
      | nil => exact h
      | cons l pending =>
          rw [sweep]
          dsimp only
          split
          · exact ih _ (step s l h)
          · exact ih _ (step s l h)

theorem Spares.visited {s s₁ : Store} (h : s.Spares s₁) {visit : Layout → Visit}
    (hvisit : ∀ l : Layout, l.Forgot (visit l).layout) (l : LayoutId) : s.Spares (s₁.visited visit l) := by
  have hinv := s₁.aside_invalidateEach (visit (s₁.layout l)).dropped
  have hforgot := hvisit (s₁.layout l)
  have hlayout := hinv.layout l
  rw [Store.visited]
  refine (h.aside hinv).modifyLayout ?_ ?_ ?_ (fun r hr => ?_) (fun r hr => ?_)
  · rw [hlayout, hforgot.slots]
  · rw [hlayout, hforgot.kind]
  · rw [hlayout, hforgot.singleton]
  · rw [hlayout]
    exact Or.inl (hforgot.refs hr)
  · rw [hlayout, ← hforgot.weakRefs]
    exact Or.inl hr

theorem invalidateEach_eq (s : Store) (rs : List LookupId) :
    s.invalidateEach rs = { s with lookups := (s.invalidateEach rs).lookups } := by
  induction rs generalizing s with
  | nil => rfl
  | cons r rs ih => exact ih (s.invalidateLookup r)

theorem size_lookups_invalidateEach (s : Store) (rs : List LookupId) :
    (s.invalidateEach rs).lookups.size = s.lookups.size := by
  induction rs generalizing s with
  | nil => rfl
  | cons r rs ih => exact (ih (s.invalidateLookup r)).trans (by simp [invalidateLookup])

theorem lookupValid_invalidateEach (s : Store) (rs : List LookupId) (q : LookupId) :
    (s.invalidateEach rs).lookupValid q = true ↔ s.lookupValid q = true ∧ q ∉ rs := by
  induction rs generalizing s with
  | nil => simp [invalidateEach]
  | cons r rs ih =>
      refine (ih (s.invalidateLookup r)).trans ?_
      rw [lookupValid_invalidateLookup, List.mem_cons, not_or, and_assoc]

/-- What a sweep leaves: layouts with at most part of their record forgotten, at most as many valid
    lookups, and all else as it was. -/
structure Swept (s s' : Store) : Prop where
  eq : s' = { s with layouts := s'.layouts, lookups := s'.lookups }
  size : s'.layouts.size = s.layouts.size
  layout : ∀ k, (s.layout k).Forgot (s'.layout k)
  sizeLookups : s'.lookups.size = s.lookups.size
  fallen : ∀ r, s'.lookupValid r = true → s.lookupValid r = true

theorem Swept.refl (s : Store) : s.Swept s :=
  ⟨rfl, rfl, fun _ => .refl _, rfl, fun _ h => h⟩

theorem Swept.trans {s s₁ s₂ : Store} (h : s.Swept s₁) (h' : s₁.Swept s₂) : s.Swept s₂ where
  eq := by
    rw [h'.eq, h.eq]
  size := h'.size.trans h.size
  layout k := (h.layout k).trans (h'.layout k)
  sizeLookups := h'.sizeLookups.trans h.sizeLookups
  fallen r hr := h.fallen r (h'.fallen r hr)

theorem swept_visited (s : Store) {visit : Layout → Visit}
    (hvisit : ∀ l : Layout, l.Forgot (visit l).layout) (l : LayoutId) :
    s.Swept (s.visited visit l) := by
  have hinv := s.aside_invalidateEach (visit (s.layout l)).dropped
  refine ⟨?_, ?_, fun k => ?_, size_lookups_invalidateEach _ _, fun r hr => ?_⟩
  · rw [visited, modifyLayout, invalidateEach_eq]
  · simp [visited, modifyLayout, hinv.layouts]
  · rw [visited, layout_modifyLayout]
    split
    · rename_i h
      rw [h.1]
      exact hvisit _
    · rw [hinv.layout]
      exact .refl _
  · exact ((lookupValid_invalidateEach s _ r).1 hr).1

theorem swept_invalidateNames (s : Store) (l : LayoutId) (names : List Name) :
    s.Swept (s.invalidateNames l names) :=
  sweep_induction (fun s₁ k h => h.trans (s₁.swept_visited (Layout.forgot_forgetNames names) k)) _ _
    (Swept.refl s)

theorem swept_invalidateAll (s : Store) (l : LayoutId) : s.Swept (s.invalidateAll l) :=
  sweep_induction (fun s₁ k h => h.trans (s₁.swept_visited Layout.forgot_forgetAll k)) _ _
    (Swept.refl s)

/-- **Forgetting lookups spares the bindings.** -/
theorem Spares.invalidateNames {s s₁ : Store} (h : s.Spares s₁) (l : LayoutId) (names : List Name) :
    s.Spares (s₁.invalidateNames l names) :=
  sweep_induction (fun _ k hk => hk.visited (Layout.forgot_forgetNames names) k) _ _ h

theorem Spares.invalidateAll {s s₁ : Store} (h : s.Spares s₁) (l : LayoutId) :
    s.Spares (s₁.invalidateAll l) :=
  sweep_induction (fun _ k hk => hk.visited Layout.forgot_forgetAll k) _ _ h

end Store

end ScopeCall
