import ScopeCall.Proofs.Reachability
import ScopeCall.FanOut

/-!
# `ScopeCall.Proofs.Tables` — reading the store after one change

The changes that operations are made of each touch one entry of one table. Most of what they leave alone
is left alone by definition; this module states what has to be argued.

## Contents
- **Layouts and slots.** Reading after `modifyLayout`, `modifySlot` and `addLayout`.
- **Activations and contents.** Reading after `modifyActivation`, `setContent` and `addActivation`.
- **Stable values and lookups.** Reading after they are added or invalidated.
- **References.** What an object refers to after a change.
-/

namespace ScopeCall

/-! ## Arrays -/

theorem Array.getD_modify {α : Type} [Inhabited α] (xs : Array α) (i j : Nat) (f : α → α) :
    (xs.modify i f)[j]?.getD default
      = if j = i ∧ i < xs.size then f (xs[i]?.getD default) else xs[j]?.getD default := by
  rw [Array.getElem?_modify]
  by_cases hij : i = j
  · subst hij
    by_cases hi : i < xs.size <;> simp [hi]
  · simp [hij, Ne.symm hij]

theorem Array.getD_push {α : Type} [Inhabited α] (xs : Array α) (x : α) (j : Nat) :
    (xs.push x)[j]?.getD default = if j = xs.size then x else xs[j]?.getD default := by
  rw [Array.getElem?_push]
  split <;> rfl

namespace Store

variable (s : Store)

/-! ## Layouts and slots -/

theorem layout_modifyLayout (l k : LayoutId) (f : Layout → Layout) :
    (s.modifyLayout l f).layout k
      = if k = l ∧ s.Allocated (.layout l) then f (s.layout l) else s.layout k := by
  rcases k with ⟨k⟩
  rcases l with ⟨l⟩
  simpa [layout, modifyLayout, Allocated] using Array.getD_modify s.layouts l k f

/-- A change to one layout that keeps some part of it keeps that part of every layout. -/
theorem layout_modifyLayout_congr {α : Type} (part : Layout → α) (l k : LayoutId)
    (f : Layout → Layout) (hf : part (f (s.layout l)) = part (s.layout l)) :
    part ((s.modifyLayout l f).layout k) = part (s.layout k) := by
  rw [layout_modifyLayout]
  split
  · rename_i h
    rw [hf, h.1]
  · rfl

theorem layout_modifyLayout_of_ne {l k : LayoutId} (f : Layout → Layout) (h : k ≠ l) :
    (s.modifyLayout l f).layout k = s.layout k := by
  rw [layout_modifyLayout, if_neg fun hc => h hc.1]

theorem layout_modifyLayout_self {l : LayoutId} (f : Layout → Layout)
    (h : s.Allocated (.layout l)) : (s.modifyLayout l f).layout l = f (s.layout l) := by
  rw [layout_modifyLayout, if_pos ⟨rfl, h⟩]

theorem layout_addLayout (l : Layout) (k : LayoutId) :
    (s.addLayout l).layout k = if k.index = s.layouts.size then l else s.layout k :=
  Array.getD_push s.layouts l k.index

/-- A layout that was never made has no slots. -/
theorem allocated_of_slot? {s : Store} {l : LayoutId} {i : Nat} {info : SlotInfo}
    (h : s.slot? l i = some info) : s.Allocated (.layout l) := by
  by_contra hl
  simp only [Allocated, Nat.not_lt] at hl
  simp [slot?, layout, Array.getElem?_eq_none hl, default, instInhabitedLayout.default] at h

theorem slot?_modifySlot (l k : LayoutId) (i j : Nat) (f : SlotInfo → SlotInfo) :
    (s.modifySlot l i f).slot? k j
      = if k = l ∧ j = i then (s.slot? k j).map f else s.slot? k j := by
  by_cases hk : k = l
  · subst hk
    by_cases ha : s.Allocated (.layout k)
    · rw [slot?, modifySlot, layout_modifyLayout_self _ _ ha, Layout.modifySlot]
      simp only [Array.getElem?_modify, slot?, true_and]
      by_cases hj : i = j
      · simp [hj]
      · simp [hj, Ne.symm hj]
    · have hnone : ∀ i, s.slot? k i = none := by
        intro i
        by_contra hc
        obtain ⟨info, hinfo⟩ := Option.ne_none_iff_exists'.1 hc
        exact ha (allocated_of_slot? hinfo)
      have hsame : (s.modifySlot k i f).slot? k j = s.slot? k j := by
        rw [slot?, modifySlot, layout_modifyLayout, if_neg fun hc => ha hc.2, slot?]
      simp [hsame, hnone]
  · rw [slot?, modifySlot, layout_modifyLayout_of_ne _ _ hk, slot?, if_neg fun hc => hk hc.1]

/-! ## Activations and contents -/

theorem activation_modifyActivation (a b : ActivationId) (f : Activation → Activation) :
    (s.modifyActivation a f).activation b
      = if b = a ∧ s.Allocated (.activation a) then f (s.activation a) else s.activation b := by
  rcases a with ⟨a⟩
  rcases b with ⟨b⟩
  simpa [activation, modifyActivation, Allocated] using Array.getD_modify s.activations a b f

theorem activation_modifyActivation_congr {α : Type} (part : Activation → α) (a b : ActivationId)
    (f : Activation → Activation) (hf : part (f (s.activation a)) = part (s.activation a)) :
    part ((s.modifyActivation a f).activation b) = part (s.activation b) := by
  rw [activation_modifyActivation]
  split
  · rename_i h
    rw [hf, h.1]
  · rfl

theorem activation_addActivation (a : Activation) (b : ActivationId) :
    (s.addActivation a).activation b
      = if b.index = s.activations.size then a else s.activation b :=
  Array.getD_push s.activations a b.index

end Store

theorem Activation.content_setContent (a : Activation) (i j : Nat) (c : SlotContent) :
    (a.setContent i c).content j = if j = i then c else a.content j := by
  have hsize : i < a.contents.size + (i + 1 - a.contents.size) := by omega
  simp only [Activation.content, Activation.setContent, Array.getElem?_setIfInBounds,
    Array.size_append, Array.size_replicate]
  by_cases hj : i = j
  · subst hj
    simp [hsize]
  · rw [if_neg hj, if_neg (Ne.symm hj), Array.getElem?_append]
    split
    · rfl
    · rename_i hge
      rw [Array.getElem?_eq_none (Nat.le_of_not_lt hge), Array.getElem?_replicate]
      split <;> rfl

namespace Store

variable (s : Store)

theorem layoutOf_setContent (a b : ActivationId) (i : Nat) (c : SlotContent) :
    (s.setContent a i c).layoutOf b = s.layoutOf b :=
  s.activation_modifyActivation_congr Activation.layout a b _ rfl

theorem content_setContent {a : ActivationId} (b : ActivationId) (i j : Nat) (c : SlotContent)
    (ha : s.Allocated (.activation a)) :
    (s.setContent a i c).content b j = if b = a ∧ j = i then c else s.content b j := by
  rw [content, setContent, activation_modifyActivation]
  by_cases hb : b = a
  · subst hb
    simp only [true_and, ha, if_true, Activation.content_setContent, content]
  · rw [if_neg fun hc => hb hc.1, if_neg fun hc => hb hc.1]
    rfl

/-! ## Stable values and lookups -/

theorem stable_addStable (label : String) (v : Option Value) (t : StableId) :
    (s.addStable label v).stable t
      = if t.index = s.stables.size then ⟨v, ⟨label, true⟩⟩ else s.stable t :=
  Array.getD_push s.stables _ t.index

theorem value_invalidateStable (t u : StableId) :
    ((s.invalidateStable t).stable u).value = (s.stable u).value := by
  have := Array.getD_modify s.stables t.index u.index fun v => { v with guard := v.guard.fallen }
  simp only [stable, invalidateStable, this]
  split
  · rename_i h
    rw [h.1]
  · rfl

theorem stableValid_invalidateStable {t : StableId} (u : StableId) (ht : s.Allocated (.stable t)) :
    (s.invalidateStable t).stableValid u = (s.stableValid u && decide (u ≠ t)) := by
  have := Array.getD_modify s.stables t.index u.index fun v => { v with guard := v.guard.fallen }
  simp only [stableValid, stable, invalidateStable, this]
  rcases t with ⟨t⟩
  rcases u with ⟨u⟩
  simp only [Allocated] at ht
  by_cases hu : u = t <;> simp [hu, ht, Guard.fallen]

theorem lookupValid_addLookup (label : String) (r : LookupId) :
    (s.addLookup label).lookupValid r
      = if r.index = s.lookups.size then true else s.lookupValid r := by
  have := Array.getD_push s.lookups ⟨label, true⟩ r.index
  simp only [lookupValid, lookup, addLookup, this]
  split <;> rfl

theorem lookupValid_invalidateLookup {r : LookupId} (q : LookupId) :
    (s.invalidateLookup r).lookupValid q = true ↔ s.lookupValid q = true ∧ q ≠ r := by
  have := Array.getD_modify s.lookups r.index q.index Guard.fallen
  simp only [lookupValid, lookup, invalidateLookup, this]
  rcases r with ⟨r⟩
  rcases q with ⟨q⟩
  by_cases hq : q = r
  · subst hq
    by_cases hlt : q < s.lookups.size
    · simp [hlt, Guard.fallen]
    · simp [hlt]
      rfl
  · simp [hq]

/-! ## References -/

theorem mem_refs_modifyLayout {s : Store} {l : LayoutId} {f : Layout → Layout} {q r : Ref}
    (h : r ∈ (s.modifyLayout l f).refs q) :
    r ∈ s.refs q ∨ s.Allocated (.layout l) ∧ q = .layout l ∧ r ∈ (f (s.layout l)).refs := by
  cases q with
  | layout k =>
      rcases k with ⟨k⟩
      rcases l with ⟨l⟩
      simp only [refs, modifyLayout, Array.getElem?_modify] at h
      by_cases hk : l = k
      · subst hk
        by_cases hl : l < s.layouts.size
        · exact Or.inr ⟨hl, rfl, by simpa [hl, layout] using h⟩
        · simp [hl] at h
      · exact Or.inl (by simpa [hk, refs] using h)
  | _ => exact Or.inl h

theorem mem_refs_modifyActivation {s : Store} {a : ActivationId} {f : Activation → Activation}
    {q r : Ref} (h : r ∈ (s.modifyActivation a f).refs q) :
    r ∈ s.refs q
      ∨ s.Allocated (.activation a) ∧ q = .activation a ∧ r ∈ (f (s.activation a)).refs := by
  cases q with
  | activation b =>
      rcases b with ⟨b⟩
      rcases a with ⟨a⟩
      simp only [refs, modifyActivation, Array.getElem?_modify] at h
      by_cases hb : a = b
      · subst hb
        by_cases ha : a < s.activations.size
        · exact Or.inr ⟨ha, rfl, by simpa [ha, activation] using h⟩
        · simp [ha] at h
      · exact Or.inl (by simpa [hb, refs] using h)
  | _ => exact Or.inl h

theorem mem_refs_modifyCache {s : Store} {c : CacheId} {f : LookupCache → LookupCache} {q r : Ref}
    (h : r ∈ (s.modifyCache c f).refs q) :
    r ∈ s.refs q ∨ s.Allocated (.cache c) ∧ q = .cache c ∧ r ∈ (f (s.cache c)).refs := by
  cases q with
  | cache d =>
      rcases d with ⟨d⟩
      rcases c with ⟨c⟩
      simp only [refs, modifyCache, Array.getElem?_modify] at h
      by_cases hd : c = d
      · subst hd
        by_cases hc : c < s.caches.size
        · exact Or.inr ⟨hc, rfl, by simpa [hc, cache] using h⟩
        · simp [hc] at h
      · exact Or.inl (by simpa [hd, refs] using h)
  | _ => exact Or.inl h

/-- A stable value refers to the same after it has been invalidated. -/
theorem refs_invalidateStable (t : StableId) (q : Ref) :
    (s.invalidateStable t).refs q = s.refs q := by
  cases q with
  | stable u =>
      simp only [refs, invalidateStable, Array.getElem?_modify]
      split
      · cases s.stables[u.index]? <;> rfl
      · rfl
  | _ => rfl

/-- The references of a layout that exists. -/
theorem refs_layout {s : Store} {l : LayoutId} (hl : s.Allocated (.layout l)) :
    s.refs (.layout l) = (s.layout l).refs := by
  simp only [Allocated] at hl
  simp [refs, layout, hl]

/-- The references of an activation that exists. -/
theorem refs_activation {s : Store} {a : ActivationId} (ha : s.Allocated (.activation a)) :
    s.refs (.activation a) = (s.activation a).refs := by
  simp only [Allocated] at ha
  simp [refs, activation, ha]

/-- The references of a function that exists. -/
theorem refs_callable {s : Store} {c : CallableId} (hc : s.Allocated (.callable c)) :
    s.refs (.callable c) = (s.callable c).refs := by
  simp only [Allocated] at hc
  simp [refs, callable, hc]

/-- The references of a call site that exists. -/
theorem refs_site {s : Store} {i : SiteId} (hi : s.Allocated (.site i)) :
    s.refs (.site i) = (s.site i).refs := by
  simp only [Allocated] at hi
  simp [refs, site, hi]

end Store

end ScopeCall
