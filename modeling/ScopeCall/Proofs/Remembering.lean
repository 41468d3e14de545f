import Mathlib.Logic.Relation
import ScopeCall.Proofs.Advancing
import ScopeCall.Proofs.Sweeping

/-!
# `ScopeCall.Proofs.Remembering` — results of lookups, and where they were recorded

A result is remembered at the layout where its lookup started, and the name is recorded at every layout
on the way. `Store.Trace` retells such a walk from what the layouts say now. While scopes are nested as
their layouts are, each valid result has a trace; a change at one layout may break the traces that go
through it, and the sweep that follows forgets just those.

## Contents
- **Traces.** `Store.view`, what one layout says about a name, and `Store.Trace`.
- **The invariant.** `Store.Remembers`. A change at some layouts leaves it with these `pending`.
- **Changes of slots.** `Store.Quiet` changes, and what they may do to the views.
- **Sweeps.** `Remembers.sweep`: after a sweep nothing is pending.
- **New objects.** Layouts, links, activations and read sites.
-/

namespace ScopeCall

/-- What the walk of a result came to. -/
def LookupResult.finding : LookupResult → Store.Finding
  | .stable t _       => .stable t
  | .boundAt a slot _ => .boundAt a slot
  | .unbound _        => .unbound

/-! ## Places of names -/

/-- The place of a name depends on the names of the slots alone. -/
theorem Layout.slotIndex?_eq (l : Layout) (n : Name) :
    l.slotIndex? n = l.identifiers.findIdx? (· == n) := by
  unfold Layout.slotIndex? Layout.identifiers
  rw [List.findIdx?_map, ← List.findIdx?_toArray]
  rfl

theorem Layout.slotIndex?_eq_some {l : Layout} {n : Name} {i : Nat} (h : l.slotIndex? n = some i) :
    ∃ info, l.slots[i]? = some info ∧ info.name = n := by
  unfold Layout.slotIndex? at h
  rw [Array.findIdx?_eq_some_iff_getElem] at h
  obtain ⟨hi, hn, -⟩ := h
  exact ⟨l.slots[i], by simp [hi], by simpa using hn⟩

theorem Layout.slotIndex?_addSlot (l : Layout) (info : SlotInfo) {n : Name} (hn : n ≠ info.name) :
    (l.addSlot info).slotIndex? n = l.slotIndex? n := by
  have h : (info.name == n) = false := beq_eq_false_iff_ne.2 (Ne.symm hn)
  rw [Layout.slotIndex?_eq, Layout.slotIndex?_eq]
  unfold Layout.identifiers Layout.addSlot
  simp [Array.toList_push, List.map_append, List.findIdx?_append, List.findIdx?_cons, h]

namespace Store

/-! ## Traces -/

/-- What a layout says about a name, going by the activation that it names. -/
def view (s : Store) (l : LayoutId) (n : Name) : Stop :=
  match (s.layout l).slotIndex? n with
  | none      => .passOn
  | some slot =>
    match s.token l slot with
    | some t => if (s.stable t).value.isSome then .found (.stable t) else .passOn
    | none   =>
      match (s.layout l).singleton with
      | some a => .found (.boundAt a slot)
      | none   => .giveUp

/-- Whether what a walk came to is still so. -/
def findingValid (s : Store) : Finding → Bool
  | .stable t => s.stableValid t
  | _         => true

/-- The walk of a lookup, as it would go now from a layout to a finding. The name is recorded all the
    way; nothing is known beyond a `pending` layout. -/
inductive Trace (s : Store) (pending : LayoutId → Name → Prop) (n : Name) :
    LayoutId → Finding → Prop where
  | pending {l : LayoutId} {f : Finding} (hrec : n ∈ (s.layout l).recorded) (h : pending l n) :
      Trace s pending n l f
  | stop {l : LayoutId} {f : Finding} (hrec : n ∈ (s.layout l).recorded)
      (h : s.view l n = .found f) : Trace s pending n l f
  | root {l : LayoutId} (hrec : n ∈ (s.layout l).recorded) (h : s.view l n = .passOn)
      (he : (s.layout l).enclosing = none) : Trace s pending n l .unbound
  | up {l p : LayoutId} {f : Finding} (hrec : n ∈ (s.layout l).recorded)
      (h : s.view l n = .passOn) (he : (s.layout l).enclosing = some p)
      (ht : Trace s pending n p f) : Trace s pending n l f

variable {s s₁ s₂ : Store}

theorem resultValid_eq (s : Store) (r : LookupResult) :
    s.resultValid r = (s.lookupValid r.guard && s.findingValid r.finding) := by
  cases r <;> simp [resultValid, findingValid, LookupResult.guard, LookupResult.finding]

theorem Trace.recorded {pending : LayoutId → Name → Prop} {n : Name} {l : LayoutId} {f : Finding}
    (h : s.Trace pending n l f) : n ∈ (s.layout l).recorded := by
  cases h <;> assumption

/-- A trace survives a change after which each layout on the way says the same, or is pending, or said
    nothing that a trace could rest on, or named a stable value that is not valid any more. -/
theorem Trace.map {pending pending' : LayoutId → Name → Prop} {n : Name} {l : LayoutId}
    {f : Finding} (h : s.Trace pending n l f)
    (hrec : ∀ k, n ∈ (s.layout k).recorded → n ∈ (s₁.layout k).recorded)
    (henclosing : ∀ k, n ∈ (s.layout k).recorded →
      (s₁.layout k).enclosing = (s.layout k).enclosing)
    (hpending : ∀ k, pending k n → pending' k n)
    (hview : ∀ k, n ∈ (s.layout k).recorded → s₁.view k n = s.view k n ∨ pending' k n
      ∨ s.view k n = .giveUp ∨ ∃ t, s.view k n = .found (.stable t) ∧ s₁.stableValid t = false)
    (hvalid : s₁.findingValid f = true) : s₁.Trace pending' n l f := by
  induction h with
  | pending hr hp => exact .pending (hrec _ hr) (hpending _ hp)
  | stop hr hv =>
      rcases hview _ hr with h | h | h | ⟨t, h, hf⟩
      · exact .stop (hrec _ hr) (h.trans hv)
      · exact .pending (hrec _ hr) h
      · rw [hv] at h
        exact absurd h (by simp)
      · rw [hv] at h
        obtain rfl := Stop.found.inj h
        rw [findingValid, hf] at hvalid
        exact absurd hvalid Bool.false_ne_true
  | root hr hv he =>
      rcases hview _ hr with h | h | h | ⟨t, h, -⟩
      · exact .root (hrec _ hr) (h.trans hv) ((henclosing _ hr).trans he)
      · exact .pending (hrec _ hr) h
      · exact absurd (hv.symm.trans h) (by simp)
      · exact absurd (hv.symm.trans h) (by simp)
  | up hr hv he _ ih =>
      rcases hview _ hr with h | h | h | ⟨t, h, -⟩
      · exact .up (hrec _ hr) (h.trans hv) ((henclosing _ hr).trans he) (ih hvalid)
      · exact .pending (hrec _ hr) h
      · exact absurd (hv.symm.trans h) (by simp)
      · exact absurd (hv.symm.trans h) (by simp)

/-! ## The invariant -/

/-- `b` is nested in `a`, however deep. -/
abbrev Inside (s : Store) : ActivationId → ActivationId → Prop :=
  Relation.TransGen fun b a => (s.activation b).enclosing = some a

/-- An activation counts for its layout; where the layout admits one, only the one that it names. -/
structure Current (s : Store) (a : ActivationId) : Prop where
  allocated : s.Allocated (.activation a)
  named : (s.layout (s.layoutOf a)).kind.isSingleton = true →
    (s.layout (s.layoutOf a)).singleton = some a

/-- Scopes are nested as their layouts are. -/
structure Nested (s : Store) : Prop where
  along : ∀ a, s.Current a →
    (s.layout (s.layoutOf a)).enclosing = (s.activation a).enclosing.map s.layoutOf
  acyclic : ∀ a, ¬ s.Inside a a
  registered : ∀ l p, (s.layout l).enclosing = some p → l ∈ (s.layout p).children
  /-- Only a layout with an activation that counts has been walked through. -/
  walked : ∀ l n, n ∈ (s.layout l).recorded → ∃ a, s.Current a ∧ s.layoutOf a = l
  claimed : ∀ l a, (s.layout l).singleton = some a → (s.layout l).kind.isSingleton = true

/-- Each result that is remembered and valid has a trace, as far as it is remembered at an `alive`
    layout. -/
structure Retraces (s : Store) (alive : LayoutId → Prop) (pending : LayoutId → Name → Prop) : Prop
    extends Nested s where
  memoGuards : ∀ l n r, (s.layout l).memo? n = some r → r.guard.index < s.lookups.size
  cacheGuards : ∀ c l r, (s.cache c).cached = some (l, r) →
    s.Allocated (.layout l) ∧ r.guard.index < s.lookups.size
  traced : ∀ l n r, alive l → (s.layout l).memo? n = some r → s.resultValid r = true →
    s.Trace pending n l r.finding
  /-- A read site that may trust its result has the one that the layout remembers. -/
  cached : ∀ c l r, (s.cache c).cached = some (l, r) → alive l → s.lookupValid r.guard = true →
    (s.layout l).memo? (s.cache c).name = some r

/-- What is remembered can be swept away: a sweep goes down along layouts that are `alive`. -/
structure Remembers (s : Store) (alive : LayoutId → Prop) (pending : LayoutId → Name → Prop) : Prop
    extends Retraces s alive pending where
  upward : ∀ l p, alive l → (s.layout l).enclosing = some p → alive p

section Invariant

variable {alive alive' : LayoutId → Prop} {pending pending' : LayoutId → Name → Prop}

theorem allocated_of_recorded {l : LayoutId} {n : Name} (h : n ∈ (s.layout l).recorded) :
    s.Allocated (.layout l) := by
  by_contra hl
  simp only [Allocated, Nat.not_lt] at hl
  simp [layout, Array.getElem?_eq_none hl, default, instInhabitedLayout.default] at h

theorem allocated_of_memo {l : LayoutId} {n : Name} {r : LookupResult}
    (h : (s.layout l).memo? n = some r) : s.Allocated (.layout l) := by
  by_contra hl
  simp only [Allocated, Nat.not_lt] at hl
  simp [layout, Array.getElem?_eq_none hl, default, instInhabitedLayout.default, Layout.memo?] at h

/-- An activation alive counts for its layout. -/
theorem Sound.current (hs : s.Sound) {a : ActivationId} (ha : s.Live (.activation a)) : s.Current a :=
  ⟨ha.allocated hs.wellFormed, hs.bindings.unique a ha⟩

/-- Fewer layouts may count as alive. -/
theorem Retraces.weaken (h : s.Retraces alive pending)
    (halive : ∀ l, alive' l → s.Allocated (.layout l) → alive l) : s.Retraces alive' pending :=
  { h with
    traced := fun l n r hl hm hv => h.traced l n r (halive l hl (allocated_of_memo hm)) hm hv
    cached := fun c l r hc hl hv => h.cached c l r hc (halive l hl (h.cacheGuards c l r hc).1) hv }

/-- Fewer layouts may count as alive, as long as their parents do too. -/
theorem Remembers.weaken (h : s.Remembers alive pending)
    (halive : ∀ l, alive' l → s.Allocated (.layout l) → alive l)
    (hup : ∀ l p, alive' l → (s.layout l).enclosing = some p → alive' p) :
    s.Remembers alive' pending :=
  { h.toRetraces.weaken halive with upward := hup }

/-- More may be pending. -/
theorem Remembers.more (h : s.Remembers alive pending) (hpending : ∀ k m, pending k m → pending' k m) :
    s.Remembers alive pending' :=
  { h with
    traced := fun l n r hl hm hv => (h.traced l n r hl hm hv).map (fun _ => id) (fun _ _ => rfl)
      (fun k => hpending k n) (fun _ _ => Or.inl rfl) (Bool.and_eq_true_iff.1
        (resultValid_eq s r ▸ hv)).2 }

/-! ## Changes that carry over -/

/-- What was recorded and remembered has stayed, and links have stayed where anything was recorded. -/
structure Carries (s s' : Store) : Prop where
  layouts : ∀ k, s.Allocated (.layout k) → s'.Allocated (.layout k)
  recorded : ∀ k n, n ∈ (s.layout k).recorded → n ∈ (s'.layout k).recorded
  memo : ∀ k n, (s'.layout k).memo? n = (s.layout k).memo? n
  enclosing : ∀ k n, n ∈ (s.layout k).recorded →
    (s'.layout k).enclosing = (s.layout k).enclosing
  size : s.lookups.size ≤ s'.lookups.size
  valid : ∀ g, g.index < s.lookups.size → s'.lookupValid g = true → s.lookupValid g = true
  cache : ∀ c, (s'.cache c).cached ≠ none → s'.cache c = s.cache c

/-- What is remembered was remembered before. What was remembered still is, unless it is not valid any
    more. -/
structure Retains (s s' : Store) : Prop where
  layouts : ∀ k, s.Allocated (.layout k) → s'.Allocated (.layout k)
  memo : ∀ k n r, (s'.layout k).memo? n = some r → (s.layout k).memo? n = some r
  kept : ∀ k n r, r.guard.index < s.lookups.size → (s.layout k).memo? n = some r →
    s'.lookupValid r.guard = true → (s'.layout k).memo? n = some r
  size : s.lookups.size ≤ s'.lookups.size
  valid : ∀ g, g.index < s.lookups.size → s'.lookupValid g = true → s.lookupValid g = true
  cache : ∀ c, (s'.cache c).cached ≠ none → s'.cache c = s.cache c

theorem Retains.refl (s : Store) : s.Retains s :=
  ⟨fun _ => id, fun _ _ _ => id, fun _ _ _ _ hr _ => hr, Nat.le_refl _, fun _ _ => id, fun _ _ => rfl⟩

theorem Retains.trans (h : s.Retains s₁) (h' : s₁.Retains s₂) : s.Retains s₂ where
  layouts k hk := h'.layouts k (h.layouts k hk)
  memo k n r hr := h.memo k n r (h'.memo k n r hr)
  kept k n r hlt hr hv := by
    have hlt' := Nat.lt_of_lt_of_le hlt h.size
    exact h'.kept k n r hlt' (h.kept k n r hlt hr (h'.valid _ hlt' hv)) hv
  size := h.size.trans h'.size
  valid g hg hv := h.valid g hg (h'.valid g (Nat.lt_of_lt_of_le hg h.size) hv)
  cache c hc := by
    have hsame := h'.cache c hc
    rw [hsame] at hc ⊢
    exact h.cache c hc

theorem Retains.of_eq (hgrows : ∀ k, s.Allocated (.layout k) → s₁.Allocated (.layout k))
    (hmemo : ∀ k n, (s₁.layout k).memo? n = (s.layout k).memo? n) (hlookups : s₁.lookups = s.lookups)
    (hcaches : s₁.caches = s.caches) : s.Retains s₁ where
  layouts := hgrows
  memo k n _ hr := hmemo k n ▸ hr
  kept k n _ _ hr _ := (hmemo k n).trans hr
  size := hlookups ▸ Nat.le_refl _
  valid g _ hg := by rwa [lookupValid, lookup, hlookups] at hg
  cache c _ := by rw [Store.cache, hcaches, ← Store.cache]

theorem Carries.retains (h : s.Carries s₁) : s.Retains s₁ :=
  ⟨h.layouts, fun k n _ hr => h.memo k n ▸ hr, fun k n _ _ hr _ => (h.memo k n).trans hr, h.size,
    h.valid, h.cache⟩

/-- What is valid was valid before. -/
theorem Retains.resultValid (hc : s.Retains s₁) (h : s.Retraces alive pending) (hs : s.WellFormed)
    (hvalid : ∀ t, s.Allocated (.stable t) → s₁.stableValid t = true → s.stableValid t = true)
    {l : LayoutId} {n : Name} {r : LookupResult} (hr : (s.layout l).memo? n = some r)
    (hv : s₁.resultValid r = true) : s.resultValid r = true := by
  rw [resultValid_eq, Bool.and_eq_true] at hv ⊢
  refine ⟨hc.valid _ (h.memoGuards l n r hr) hv.1, ?_⟩
  cases r with
  | stable t g =>
      refine hvalid t (hs.refs _ _ (mem_refs_of_memo (allocated_of_memo hr) hr ?_)) hv.2
      exact List.mem_singleton.2 rfl
  | boundAt | unbound => rfl

/-- A read site that may trust its result has the one that the layout still remembers. -/
theorem Retains.cached (hc : s.Retains s₁) (h : s.Retraces alive pending) {c : CacheId} {l : LayoutId}
    {r : LookupResult} (hr : (s₁.cache c).cached = some (l, r)) (hl : alive l)
    (hv : s₁.lookupValid r.guard = true) : (s₁.layout l).memo? (s₁.cache c).name = some r := by
  have hsame := hc.cache c (by simp [hr])
  rw [hsame] at hr ⊢
  have hlt := (h.cacheGuards c l r hr).2
  exact hc.kept l _ r hlt (h.cached c l r hr hl (hc.valid _ hlt hv)) hv

/-- Where traces lead to traces, what is still remembered can be relied on as before. -/
theorem Retraces.convey (h : s.Retraces alive pending) (hs : s.WellFormed) (hn : s₁.Nested)
    (hc : s.Retains s₁)
    (hvalid : ∀ t, s.Allocated (.stable t) → s₁.stableValid t = true → s.stableValid t = true)
    (htrace : ∀ n l r, alive l → (s₁.layout l).memo? n = some r → s.Trace pending n l r.finding →
      s₁.findingValid r.finding = true → s₁.Trace pending' n l r.finding) :
    s₁.Retraces alive pending' where
  toNested := hn
  memoGuards l n r hr := Nat.lt_of_lt_of_le (h.memoGuards l n r (hc.memo l n r hr)) hc.size
  cacheGuards c l r hr := by
    rw [hc.cache c (by simp [hr])] at hr
    obtain ⟨hl, hlt⟩ := h.cacheGuards c l r hr
    exact ⟨hc.layouts l hl, Nat.lt_of_lt_of_le hlt hc.size⟩
  traced l n r hl hr hv := by
    have hr₀ := hc.memo l n r hr
    have ht := h.traced l n r hl hr₀ (hc.resultValid h hs hvalid hr₀ hv)
    rw [resultValid_eq, Bool.and_eq_true] at hv
    exact htrace n l r hl hr ht hv.2
  cached c l r hr hl hv := hc.cached h hr hl hv

/-- A change breaks no more traces than the views account for. -/
theorem Retraces.carry (h : s.Retraces alive pending) (hs : s.WellFormed) (hn : s₁.Nested)
    (hc : s.Carries s₁)
    (hvalid : ∀ t, s.Allocated (.stable t) → s₁.stableValid t = true → s.stableValid t = true)
    (hpending : ∀ k m, pending k m → pending' k m)
    (hview : ∀ k m, m ∈ (s.layout k).recorded → s₁.view k m = s.view k m ∨ pending' k m
      ∨ s.view k m = .giveUp
      ∨ ∃ t, s.view k m = .found (.stable t) ∧ s₁.stableValid t = false) :
    s₁.Retraces alive pending' :=
  h.convey hs hn hc.retains hvalid fun n _ _ _ _ ht hf =>
    ht.map (fun k => hc.recorded k n) (fun k => hc.enclosing k n) (fun k => hpending k n)
      (fun k => hview k n) hf

/-! ## Changes of slots -/

/-- Nothing has changed but slots, contents, stable values and what has nothing to do with lookups. -/
structure Quiet (s s' : Store) : Prop where
  allocated : ∀ a, s'.Allocated (.activation a) ↔ s.Allocated (.activation a)
  grows : ∀ k, s.Allocated (.layout k) → s'.Allocated (.layout k)
  layoutOf : ∀ a, s'.layoutOf a = s.layoutOf a
  enclosing : ∀ a, (s'.activation a).enclosing = (s.activation a).enclosing
  bare : ∀ k, (s'.layout k).bare = (s.layout k).bare
  lookups : s'.lookups = s.lookups
  caches : s'.caches = s.caches

/-- What does not depend on the slots of a layout stays. -/
theorem Quiet.part {α : Type} (h : s.Quiet s₁) (part : Layout → α)
    (hpart : ∀ l : Layout, part l.bare = part l) (k : LayoutId) :
    part (s₁.layout k) = part (s.layout k) := by
  rw [← hpart, h.bare, hpart]

theorem Quiet.carries (h : s.Quiet s₁) : s.Carries s₁ where
  layouts := h.grows
  recorded k n hn := by
    rw [h.part Layout.recorded fun _ => rfl]
    exact hn
  memo k n := h.part (Layout.memo? · n) (fun _ => rfl) k
  enclosing k _ _ := h.part Layout.enclosing (fun _ => rfl) k
  size := by rw [h.lookups]
  valid g _ hg := by rwa [lookupValid, lookup, h.lookups] at hg
  cache c _ := by rw [cache, h.caches, ← cache]

/-- Links and activations have stayed as they were. -/
structure SameNest (s s' : Store) : Prop where
  allocated : ∀ a, s'.Allocated (.activation a) ↔ s.Allocated (.activation a)
  layoutOf : ∀ a, s'.layoutOf a = s.layoutOf a
  enclosing : ∀ a, (s'.activation a).enclosing = (s.activation a).enclosing
  links : ∀ k, (s'.layout k).enclosing = (s.layout k).enclosing
  children : ∀ k, (s'.layout k).children = (s.layout k).children
  singleton : ∀ k, (s'.layout k).singleton = (s.layout k).singleton
  kind : ∀ k, (s'.layout k).kind = (s.layout k).kind

theorem SameNest.current (h : s.SameNest s₁) {a : ActivationId} (ha : s₁.Current a) :
    s.Current a := by
  obtain ⟨ha, hnamed⟩ := ha
  rw [h.layoutOf, h.kind, h.singleton] at hnamed
  exact ⟨(h.allocated a).1 ha, hnamed⟩

theorem SameNest.current_of (h : s.SameNest s₁) {a : ActivationId} (ha : s.Current a) :
    s₁.Current a := by
  obtain ⟨ha, hnamed⟩ := ha
  rw [← h.layoutOf, ← h.kind, ← h.singleton] at hnamed
  exact ⟨(h.allocated a).2 ha, hnamed⟩

/-- The nesting is the same as before, as long as names are recorded where activations are. -/
theorem Nested.same (h : s.Nested) (hsame : s.SameNest s₁)
    (hwalked : ∀ k n, n ∈ (s₁.layout k).recorded → n ∈ (s.layout k).recorded
      ∨ ∃ a, s.Current a ∧ s.layoutOf a = k) : s₁.Nested := by
  constructor
  case along =>
    intro a ha
    rw [hsame.layoutOf, hsame.links, hsame.enclosing, h.along a (hsame.current ha)]
    exact congrArg (fun f => Option.map f _) (funext fun b => (hsame.layoutOf b).symm)
  case acyclic =>
    intro a
    simp only [Inside, hsame.enclosing]
    exact h.acyclic a
  case registered =>
    intro l p hp
    rw [hsame.links] at hp
    rw [hsame.children]
    exact h.registered l p hp
  case walked =>
    intro l n hn
    obtain ⟨a, ha, hl⟩ := (hwalked l n hn).elim (h.walked l n) id
    exact ⟨a, hsame.current_of ha, (hsame.layoutOf a).trans hl⟩
  case claimed =>
    intro l a ha
    rw [hsame.singleton] at ha
    rw [hsame.kind]
    exact h.claimed l a ha

theorem Quiet.sameNest (h : s.Quiet s₁) : s.SameNest s₁ :=
  ⟨h.allocated, h.layoutOf, h.enclosing, h.part Layout.enclosing fun _ => rfl,
    h.part Layout.children fun _ => rfl, h.part Layout.singleton fun _ => rfl,
    h.part Layout.kind fun _ => rfl⟩

theorem Nested.quiet (h : s.Nested) (hq : s.Quiet s₁) : s₁.Nested := by
  refine h.same hq.sameNest fun k n hn => Or.inl ?_
  rwa [hq.part Layout.recorded fun _ => rfl] at hn

/-- Quiet changes break no more traces than the views account for. -/
theorem Remembers.quiet (h : s.Remembers alive pending) (hs : s.WellFormed) (hq : s.Quiet s₁)
    (hvalid : ∀ t, s.Allocated (.stable t) → s₁.stableValid t = true → s.stableValid t = true)
    (hpending : ∀ k m, pending k m → pending' k m)
    (hview : ∀ k m, m ∈ (s.layout k).recorded → s₁.view k m = s.view k m ∨ pending' k m
      ∨ s.view k m = .giveUp
      ∨ ∃ t, s.view k m = .found (.stable t) ∧ s₁.stableValid t = false) :
    s₁.Remembers alive pending' where
  toRetraces := h.carry hs (h.toNested.quiet hq) hq.carries hvalid hpending hview
  upward l p hl hp := h.upward l p hl (hq.part Layout.enclosing (fun _ => rfl) l ▸ hp)

/-- Whatever stays quiet keeps the invariant if the views stay as they are. -/
theorem Remembers.quiet_same (h : s.Remembers alive pending) (hs : s.WellFormed) (hq : s.Quiet s₁)
    (hlayouts : s₁.layouts = s.layouts) (hstables : s₁.stables = s.stables) :
    s₁.Remembers alive pending := by
  have hlayout : ∀ k, s₁.layout k = s.layout k := fun k => by rw [layout, hlayouts, ← layout]
  have hstable : ∀ t, s₁.stable t = s.stable t := fun t => by rw [stable, hstables, ← stable]
  refine h.quiet hs hq (fun t _ ht => ?_) (fun _ _ => id) fun k m _ => Or.inl ?_
  · rw [stableValid, hstable] at ht
    exact ht
  · unfold view
    simp only [token, slot?, hlayout, hstable]

/-- A layout says the same about a name if its slots are named as before, and the slot for the name has
    the same token, with the same value. -/
theorem view_congr {k : LayoutId} {m : Name}
    (hnames : (s₁.layout k).identifiers = (s.layout k).identifiers)
    (hsingleton : (s₁.layout k).singleton = (s.layout k).singleton)
    (htoken : ∀ j, (s.layout k).slotIndex? m = some j → s₁.token k j = s.token k j)
    (hvalue : ∀ j t, (s.layout k).slotIndex? m = some j → s.token k j = some t →
      (s₁.stable t).value = (s.stable t).value) : s₁.view k m = s.view k m := by
  have hindex : (s₁.layout k).slotIndex? m = (s.layout k).slotIndex? m := by
    rw [Layout.slotIndex?_eq, Layout.slotIndex?_eq, hnames]
  unfold view
  rw [hindex, hsingleton]
  cases hj : (s.layout k).slotIndex? m with
  | none => rfl
  | some j =>
      dsimp only
      rw [htoken j hj]
      cases ht : s.token k j with
      | none => rfl
      | some t => simp only [hvalue j t hj ht]

theorem identifiers_of_slot {k : LayoutId}
    (hsize : (s₁.layout k).slots.size = (s.layout k).slots.size)
    (hslot : ∀ j info, s.slot? k j = some info →
      ∃ info', s₁.slot? k j = some info' ∧ info'.name = info.name) :
    (s₁.layout k).identifiers = (s.layout k).identifiers := by
  refine List.ext_getElem? fun j => ?_
  unfold Layout.identifiers
  simp only [List.getElem?_map, Array.getElem?_toList]
  cases hj : s.slot? k j with
  | none =>
      have hge : (s.layout k).slots.size ≤ j := Array.getElem?_eq_none_iff.1 hj
      rw [show (s.layout k).slots[j]? = none from hj,
        Array.getElem?_eq_none (hsize ▸ hge)]
  | some info =>
      obtain ⟨info', hj', hname⟩ := hslot j info hj
      rw [show (s.layout k).slots[j]? = some info from hj,
        show (s₁.layout k).slots[j]? = some info' from hj']
      exact congrArg some hname

theorem Retracks.quiet {l : LayoutId} {i : Nat} {new : Option StableId} {v : Option Value}
    (h : s.Retracks s₁ l i new v) : s.Quiet s₁ where
  allocated a := by simp only [Allocated, h.activations]
  grows k := h.leads.grows _
  layoutOf := h.layoutOf
  enclosing a := by rw [h.activation]
  bare := h.layout
  lookups := h.lookups
  caches := h.caches

/-- When the token of a slot is replaced, results that end there become invalid; those that pass the
    slot while it is empty are pending. -/
theorem Remembers.retracks (h : s.Remembers alive pending) (hs : s.WellFormed) {l : LayoutId}
    {i : Nat} {new : Option StableId} {v : Option Value} (hre : s.Retracks s₁ l i new v)
    (hpending : ∀ k m, pending k m → pending' k m) (hnone : s.token l i = none → new = none)
    (hempty : ∀ t, s.token l i = some t → (s.stable t).value = none → ∀ m,
      m ∈ (s.layout l).recorded → (s.layout l).slotIndex? m = some i → pending' l m) :
    s₁.Remembers alive pending' := by
  refine h.quiet hs hre.quiet (fun u hu hv => ?_) hpending fun k m hrec => ?_
  · rw [hre.valid u hu] at hv
    exact (Bool.and_eq_true_iff.1 hv).1
  · by_cases hhere : k = l ∧ (s.layout l).slotIndex? m = some i ∧ s.token l i ≠ none
    · obtain ⟨rfl, hm, ht⟩ := hhere
      obtain ⟨t, ht⟩ := Option.ne_none_iff_exists'.1 ht
      cases hvalue : (s.stable t).value with
      | none => exact Or.inr (Or.inl (hempty t ht hvalue m hrec hm))
      | some w =>
          refine Or.inr (Or.inr (Or.inr ⟨t, ?_, ?_⟩))
          · simp [view, hm, ht, hvalue]
          · rw [hre.valid t (hs.token ht)]
            simp [ht]
    · refine Or.inl (view_congr (identifiers_of_slot (hre.size k) (hre.slot k)) (hre.singleton k)
        (fun j hj => ?_) fun j u hj hu => hre.value u (hs.token hu))
      rw [hre.token]
      split
      · -- A slot that was not tracked is not tracked now.
        rename_i hkj
        obtain ⟨rfl, rfl⟩ := hkj
        have ht : s.token k j = none := by
          by_contra ht
          exact hhere ⟨rfl, hj, ht⟩
        rw [hnone ht, ht]
      · rfl

/-- When tokens of one layout are replaced, other layouts say what they said. -/
theorem Touches.view {l k : LayoutId} (h : s.Touches s₁ l) (hs : s.WellFormed) (hk : k ≠ l) (m : Name) :
    s₁.view k m = s.view k m :=
  view_congr (identifiers_of_slot (h.size k) (h.slot k)) (congrArg Layout.singleton (h.layout k) : _)
    (fun j _ => h.token k j hk) fun _ u _ hu => h.value u (hs.token hu)

/-- When tokens of one layout are replaced, everything that goes through it is pending. -/
theorem Remembers.touches (h : s.Remembers alive pending) (hs : s.WellFormed) {l : LayoutId}
    (htouch : s.Touches s₁ l) (hgrows : ∀ k, s.Allocated (.layout k) → s₁.Allocated (.layout k))
    (hvalid : ∀ u, s.Allocated (.stable u) → s₁.stableValid u = true → s.stableValid u = true)
    (hpending : ∀ k m, pending k m → pending' k m) (hall : ∀ m, pending' l m) :
    s₁.Remembers alive pending' := by
  have hact : ∀ a, s₁.activation a = s.activation a := fun a => by
    simp only [activation, htouch.activations]
  refine h.quiet hs ⟨fun a => ?_, hgrows, fun a => ?_, fun a => ?_, htouch.layout, htouch.lookups,
    htouch.caches⟩ hvalid hpending fun k m _ => ?_
  · simp only [Allocated, htouch.activations]
  · simp only [layoutOf, hact]
  · rw [hact]
  · by_cases hk : k = l
    · subst hk
      exact Or.inr (Or.inl (hall m))
    · exact Or.inl (htouch.view hs hk m)

/-- A new slot may shadow what is further out, for lookups of its name. -/
theorem Remembers.widens (h : s.Remembers alive pending) (hs : s.WellFormed) {l : LayoutId}
    {info : SlotInfo} (hw : s.Widens s₁ l info) (hpending : ∀ k m, pending k m → pending' k m)
    (hnew : pending' l info.name) : s₁.Remembers alive pending' := by
  refine h.quiet hs ⟨fun a => ?_, fun k => hw.leads.grows _, hw.layoutOf, fun a => ?_, hw.layout,
    hw.lookups, hw.caches⟩ (fun u hu hv => ?_) hpending fun k m _ => ?_
  · simp only [Allocated, hw.activations]
  · rw [hw.activation]
  · rw [stableValid, hw.stable u hu] at hv
    exact hv
  · have hvalue : ∀ j u, (s.layout k).slotIndex? m = some j → s.token k j = some u →
        (s₁.stable u).value = (s.stable u).value := fun j u _ hu => by
      rw [hw.stable u (hs.token hu)]
    have hsingleton : (s₁.layout k).singleton = (s.layout k).singleton := hw.singleton k
    by_cases hk : k = l
    · subst hk
      by_cases hm : m = info.name
      · exact Or.inr (Or.inl (hm ▸ hnew))
      · have hindex : (s₁.layout k).slotIndex? m = (s.layout k).slotIndex? m := by
          refine Eq.trans ?_ ((s.layout k).slotIndex?_addSlot info hm)
          unfold Layout.slotIndex? Layout.addSlot
          rw [hw.slots]
        refine Or.inl ?_
        unfold view
        rw [hindex, hsingleton]
        cases hj : (s.layout k).slotIndex? m with
        | none => rfl
        | some j =>
            dsimp only
            have hlt : j ≠ (s.layout k).slots.size := by
              obtain ⟨info', hinfo, -⟩ := Layout.slotIndex?_eq_some hj
              exact Nat.ne_of_lt (Array.getElem?_eq_some_iff.1 hinfo).1
            rw [hw.token, if_neg fun hc => hlt hc.2]
            cases hu : s.token k j with
            | none => rfl
            | some u => simp only [hvalue j u hj hu]
    · have hslots := hw.others k hk
      refine Or.inl (view_congr (by rw [Layout.identifiers, hslots, ← Layout.identifiers]) hsingleton
        (fun j _ => ?_) hvalue)
      rw [token, slot?, hslots, ← slot?, ← token]

/-- What a slot of an activation holds is no part of what its layout says. -/
theorem Remembers.setContent (h : s.Remembers alive pending) (hs : s.WellFormed)
    (a : ActivationId) (i : Nat) (c : SlotContent) : (s.setContent a i c).Remembers alive pending := by
  refine h.quiet_same hs ⟨fun b => Leads.allocated_modifyActivation s a _ _, fun _ h => h,
    fun b => layoutOf_setContent s a b i c, fun b => ?_, fun _ => rfl, rfl, rfl⟩ rfl rfl
  exact s.activation_modifyActivation_congr Activation.enclosing a b _ rfl

/-! ## Sweeps -/

/-- Layouts that count as alive are alive. -/
def Lasting (s : Store) (alive : LayoutId → Prop) : Prop :=
  ∀ l, alive l → s.Allocated (.layout l) → s.Live (.layout l)

/-- What is alive at the end of an operation was alive on the way. -/
theorem Lasting.before (h : s₁.Lasting alive) (hleads : s.Leads s₁) : s.Lasting alive :=
  fun l ha hl => hleads.live (h l ha (hleads.grows _ hl)) hl

/-- Records and results, which change while lookups are made and swept away, have no part in what a
    layout says. -/
theorem view_of_layout {k : LayoutId} (n : Name) (hslots : (s₁.layout k).slots = (s.layout k).slots)
    (hsingleton : (s₁.layout k).singleton = (s.layout k).singleton) (hstable : s₁.stable = s.stable) :
    s₁.view k n = s.view k n := by
  unfold view Layout.slotIndex? token slot?
  rw [hslots, hsingleton, hstable]

/-- Nor have they a part in the nesting, as long as names are recorded where activations are. -/
theorem Nested.recorded (h : s.Nested) (hactivations : s₁.activations = s.activations)
    (hlayout : ∀ k, s₁.layout k = { s.layout k with
      recorded := (s₁.layout k).recorded, memos := (s₁.layout k).memos })
    (hwalked : ∀ k n, n ∈ (s₁.layout k).recorded → n ∈ (s.layout k).recorded
      ∨ ∃ a, s.Current a ∧ s.layoutOf a = k) : s₁.Nested := by
  have hact : ∀ a, s₁.activation a = s.activation a := fun a => by
    rw [activation, hactivations, ← activation]
  refine h.same ⟨fun a => ?_, fun a => ?_, fun a => ?_, fun k => ?_, fun k => ?_, fun k => ?_,
    fun k => ?_⟩ hwalked
  · simp only [Allocated, hactivations]
  · rw [layoutOf, hact, ← layoutOf]
  · rw [hact]
  all_goals rw [hlayout]

theorem Swept.view {s' : Store} (h : s.Swept s') (k : LayoutId) (n : Name) :
    s'.view k n = s.view k n :=
  view_of_layout n (h.layout k).slots (h.layout k).singleton (by rw [h.eq]; rfl)

theorem Nested.swept {s' : Store} (h : s.Nested) (hsw : s.Swept s') : s'.Nested :=
  h.recorded (by rw [hsw.eq]) (fun k => (hsw.layout k).eq)
    fun k n hn => Or.inl ((hsw.layout k).recorded n hn)

/-- Where names are recorded, the parent of a layout alive is alive, except next to `L`. -/
def UpwardTo (s : Store) (alive : LayoutId → Prop) (L : LayoutId) : Prop :=
  ∀ k p n, alive k → n ∈ (s.layout k).recorded → (s.layout k).enclosing = some p →
    k = L ∨ p = L ∨ alive p

/-- A trace that was not swept away is whole after the sweep. -/
theorem Trace.swept {s' : Store} {visit : Layout → Visit} {N : Name → Prop} {R : LayoutId → Prop}
    {L : LayoutId} (hv : Forgetting visit N) (hnested : s.Nested) (hup : s.UpwardTo alive L)
    (hsw : s.Swept s') (hsweeps : s.Sweeps s' visit R) (hlasting : s'.Lasting alive) (hL : R L)
    (hpending : ∀ k m, pending k m → k = L ∧ N m) {n : Name} {l : LayoutId} {f : Finding}
    (ht : s.Trace pending n l f) (hl : N n → alive l) (hout : N n → ¬ R l) :
    s'.Trace (fun _ _ => False) n l f := by
  have hrecorded : ∀ k, (N n → ¬ R k) → n ∈ (s.layout k).recorded →
      n ∈ (s'.layout k).recorded := by
    intro k hk hn
    by_cases hR : R k
    · rw [hsweeps.visited k hR]
      exact hv.keeps _ n (fun hN => hk hN hR) hn
    · rw [hsweeps.others k hR]
      exact hn
  have henclosing : ∀ k, (s'.layout k).enclosing = (s.layout k).enclosing := fun k => by
    rw [(hsw.layout k).eq]
  induction ht with
  | pending hr hp =>
      obtain ⟨rfl, hN⟩ := hpending _ _ hp
      exact absurd hL (hout hN)
  | stop hr hview => exact .stop (hrecorded _ hout hr) ((hsw.view _ _).trans hview)
  | root hr hview he =>
      exact .root (hrecorded _ hout hr) ((hsw.view _ _).trans hview) ((henclosing _).trans he)
  | @up k p f hr hview he htail ih =>
      -- Had the parent been visited, the sweep would have gone on to this layout.
      have hparent : N n → ¬ R p := by
        intro hN hR
        have hd := hv.descends _ n hN htail.recorded
        have hk : s'.Allocated (.layout k) := by
          have hk := allocated_of_recorded hr
          rw [hsw.eq]
          simpa only [Allocated, hsw.size] using hk
        exact hout hN
          (hsweeps.closed p hR hd k (hnested.registered k p he) (hlasting k (hl hN) hk))
      refine .up (hrecorded _ hout hr) ((hsw.view _ _).trans hview) ((henclosing _).trans he)
        (ih (fun hN => ?_) hparent)
      rcases hup k p n (hl hN) hr he with rfl | rfl | hp
      · exact absurd hL (hout hN)
      · exact absurd hL (hparent hN)
      · exact hp

/-- A result that a sweep has taken away is not valid any more. -/
theorem retains_sweep {visit : Layout → Visit} {N : Name → Prop} (hv : Forgetting visit N)
    (hs : s.WellFormed) {L : LayoutId} (hL : s.Allocated (.layout L)) :
    s.Retains (Store.sweep visit s.sweepBound [L] s) := by
  obtain ⟨R, hsweeps, -⟩ := sweep_from hv hs hL
  have hsw := swept_sweep hv s.sweepBound [L] s
  generalize Store.sweep visit s.sweepBound [L] s = s' at *
  refine ⟨fun k hk => ?_, fun k n r hr => ?_, fun k n r _ hr hvalid => ?_, hsw.sizeLookups.ge,
    fun g _ => hsw.fallen g, fun c _ => by rw [hsw.eq]; rfl⟩
  · rw [hsw.eq]
    simpa only [Allocated, hsw.size] using hk
  · by_cases hk : R k
    · rw [hsweeps.visited k hk] at hr
      exact hv.memo_of _ n r hr
    · rwa [hsweeps.others k hk] at hr
  · by_cases hk : R k
    · rw [hsweeps.visited k hk]
      refine (hv.memo _ n r hr).resolve_right fun hd => ?_
      rw [hsweeps.dropped k hk _ hd] at hvalid
      exact absurd hvalid Bool.false_ne_true
    · rwa [hsweeps.others k hk]

/-- After a sweep nothing is pending. -/
theorem Retraces.sweep {visit : Layout → Visit} {N : Name → Prop} (hv : Forgetting visit N)
    (h : s.Retraces alive pending) (hs : s.WellFormed) {L : LayoutId}
    (hL : s.Allocated (.layout L)) (hup : s.UpwardTo alive L)
    (hpending : ∀ k m, pending k m → k = L ∧ N m)
    (hlasting : (Store.sweep visit s.sweepBound [L] s).Lasting alive) :
    (Store.sweep visit s.sweepBound [L] s).Retraces alive fun _ _ => False := by
  have hretains := retains_sweep hv hs hL
  obtain ⟨R, hsweeps, hR⟩ := sweep_from hv hs hL
  have hsw := swept_sweep hv s.sweepBound [L] s
  generalize Store.sweep visit s.sweepBound [L] s = s' at *
  refine h.convey hs (h.toNested.swept hsw) hretains (fun t _ ht => ?_) fun n l r hl hr ht _ => ?_
  · rwa [hsw.eq] at ht
  · refine ht.swept hv h.toNested hup hsw hsweeps hlasting hR hpending (fun _ => hl) fun hN hRl => ?_
    rw [hsweeps.visited l hRl, hv.gone _ n hN ht.recorded] at hr
    exact absurd hr (by simp)

/-- **After a sweep nothing is pending.** -/
theorem Remembers.sweep {visit : Layout → Visit} {N : Name → Prop} (hv : Forgetting visit N)
    (h : s.Remembers alive pending) (hs : s.WellFormed) {L : LayoutId}
    (hL : s.Allocated (.layout L)) (hpending : ∀ k m, pending k m → k = L ∧ N m)
    (hlasting : (Store.sweep visit s.sweepBound [L] s).Lasting alive) :
    (Store.sweep visit s.sweepBound [L] s).Remembers alive fun _ _ => False where
  toRetraces := h.toRetraces.sweep hv hs hL
    (fun k p _ hk _ hp => Or.inr (Or.inr (h.upward k p hk hp))) hpending hlasting
  upward l p hl hp := by
    rw [((swept_sweep hv s.sweepBound [L] s).layout l).eq] at hp
    exact h.upward l p hl hp

theorem Remembers.invalidateNames (h : s.Remembers alive pending) (hs : s.WellFormed) {l : LayoutId}
    (hl : s.Allocated (.layout l)) {names : List Name}
    (hpending : ∀ k m, pending k m → k = l ∧ m ∈ names)
    (hlasting : (s.invalidateNames l names).Lasting alive) :
    (s.invalidateNames l names).Remembers alive fun _ _ => False :=
  h.sweep (forgetting_forgetNames names) hs hl hpending hlasting

theorem Remembers.invalidateAll (h : s.Remembers alive pending) (hs : s.WellFormed) {l : LayoutId}
    (hl : s.Allocated (.layout l)) (hpending : ∀ k m, pending k m → k = l)
    (hlasting : (s.invalidateAll l).Lasting alive) :
    (s.invalidateAll l).Remembers alive fun _ _ => False :=
  h.sweep forgetting_forgetAll hs hl (fun k m hp => ⟨hpending k m hp, trivial⟩) hlasting

end Invariant

end Store

end ScopeCall
