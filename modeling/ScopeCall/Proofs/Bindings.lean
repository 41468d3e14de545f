import ScopeCall.Proofs.Sparing

/-!
# `ScopeCall.Proofs.Bindings` — stable values in step with what slots hold

While a slot is tracked, its layout holds the token of a stable value. `Store.Tracks` says that such a
token is valid, belongs to no other slot, and agrees with the content of the slot in the live activation
of the layout. An operation changes content and token one after the other; `pending` names the slots
that are out of step in between.

## Contents
- **Tokens.** `Store.token`, and `SlotContent.ofOption`, the content that a stable value describes.
- **The invariant.** `Store.Tracks`, `Store.Bindings`, and `Store.Later`, what becomes of slots and tokens
  as time goes by.
- **One token for another.** What stays of the invariant when the token of one slot is replaced.
- **Tokens replaced.** `Store.Retracks`, common to `recordWrite` and `dropStable`.
- **Contents replaced.** `setContent` and `cleanFanOut`.
- **Slots added.**
- **Advancing.** `Store.Advances`, one operation or several on a sound store.
-/

namespace ScopeCall

/-! ## Tokens -/

/-- The content of a slot that is described by a stable value. -/
def SlotContent.ofOption : Option Value → SlotContent
  | none   => .empty
  | some v => .value v

/-- A slot that has not been converted holds a value or nothing. -/
theorem SlotContent.eq_ofOption {c : SlotContent} (h : c.isFanOut = false) : ∃ w, c = .ofOption w := by
  cases c with
  | empty => exact ⟨none, rfl⟩
  | value v => exact ⟨some v, rfl⟩
  | fanOut vs => cases h

/-- All of a layout but its slots. -/
def Layout.bare (l : Layout) : Layout := { l with slots := #[] }

namespace Store

/-- The token of a slot, while it is tracked. -/
def token (s : Store) (l : LayoutId) (i : Nat) : Option StableId := (s.slot? l i).bind (·.stable)

theorem token_eq_some {s : Store} {l : LayoutId} {i : Nat} {t : StableId} :
    s.token l i = some t ↔ ∃ info, s.slot? l i = some info ∧ info.stable = some t :=
  Option.bind_eq_some_iff

/-- A token is an object that its layout refers to. -/
theorem mem_refs_of_token {s : Store} {l : LayoutId} {i : Nat} {t : StableId}
    (h : s.token l i = some t) : Ref.stable t ∈ s.refs (.layout l) := by
  obtain ⟨info, hslot, ht⟩ := token_eq_some.1 h
  rw [refs_layout (allocated_of_slot? hslot), Layout.refs, List.mem_append, List.mem_filterMap]
  refine Or.inl ⟨info, ?_, by rw [ht]; rfl⟩
  exact Array.mem_toList_iff.2 (Array.mem_of_getElem? hslot)

theorem WellFormed.token {s : Store} (hs : s.WellFormed) {l : LayoutId} {i : Nat} {t : StableId}
    (h : s.token l i = some t) : s.Allocated (.stable t) :=
  hs.refs _ _ (mem_refs_of_token h)

theorem token_lt {s : Store} {l : LayoutId} {i : Nat} {t : StableId} (h : s.token l i = some t) :
    i < (s.layout l).slots.size := by
  obtain ⟨info, hslot, -⟩ := token_eq_some.1 h
  exact (Array.getElem?_eq_some_iff.1 hslot).1

/-- What was never made is not valid. -/
theorem stableValid_of_not_allocated {s : Store} {t : StableId}
    (h : ¬ s.Allocated (.stable t)) : s.stableValid t = false := by
  simp only [Allocated, Nat.not_lt] at h
  simp only [stableValid, stable, Array.getElem?_eq_none h]
  rfl

theorem allocated_of_stableValid {s : Store} {t : StableId} (h : s.stableValid t = true) :
    s.Allocated (.stable t) := by
  by_contra hnot
  exact Bool.false_ne_true ((stableValid_of_not_allocated hnot).symm.trans h)

/-- The slots of an activation are those of a layout that exists. -/
theorem layout_allocated {s : Store} (hs : s.WellFormed) {a : ActivationId}
    (ha : s.Allocated (.activation a)) : s.Allocated (.layout (s.layoutOf a)) := by
  refine hs.refs (.activation a) _ ?_
  rw [refs_activation ha]
  exact List.mem_append_left _ List.mem_cons_self

/-! ## The invariant -/

/-- Every token is in step with its slot, except where `pending`. -/
structure Tracks (s : Store) (pending : LayoutId → Nat → Prop) : Prop where
  kind : ∀ l i t, s.token l i = some t → (s.layout l).kind.isSingleton = true
  valid : ∀ l i t, s.token l i = some t → s.stableValid t = true
  /-- No two slots share a token. -/
  unshared : ∀ l i k j t, s.token l i = some t → s.token k j = some t → l = k ∧ i = j
  /-- Every valid token is that of a slot. -/
  owned : ∀ t, s.stableValid t = true → ∃ l i, s.token l i = some t
  /-- No slot of a layout that was never claimed has held a value. -/
  unclaimed : ∀ l i t, (s.layout l).singleton = none → s.token l i = some t →
    (s.stable t).value = none
  /-- An activation stores nothing past the slots of its layout. -/
  fits : ∀ a, s.Allocated (.activation a) →
    (s.activation a).contents.size ≤ (s.layout (s.layoutOf a)).slots.size
  /-- The live activation of a layout that admits one is the one that claimed it. -/
  unique : ∀ a, s.Live (.activation a) → (s.layout (s.layoutOf a)).kind.isSingleton = true →
    (s.layout (s.layoutOf a)).singleton = some a
  agree : ∀ a i t, s.Live (.activation a) → s.token (s.layoutOf a) i = some t →
    ¬ pending (s.layoutOf a) i → s.content a i = .ofOption (s.stable t).value

/-- Every token is in step with its slot. -/
abbrev Bindings (s : Store) : Prop := s.Tracks fun _ _ => False

/-- What becomes of slots and tokens: a slot keeps its name and is not tracked again once it has been
    given up, and a token that a slot no longer holds is invalid, for good. -/
structure Later (s s' : Store) : Prop where
  slots : ∀ l i info, s.slot? l i = some info → ∃ info', s'.slot? l i = some info'
    ∧ info'.name = info.name ∧ (info.stable = none → info'.stable = none)
  dropped : ∀ l i t, s.token l i = some t → s'.token l i = some t ∨ s'.stableValid t = false
  fallen : ∀ t, s.Allocated (.stable t) → s.stableValid t = false → s'.stableValid t = false
  /-- What a stable value describes is never changed. -/
  kept : ∀ t, s.Allocated (.stable t) → (s'.stable t).value = (s.stable t).value

/-- Layouts and stable values are as they were. -/
theorem Later.of_eq {s s' : Store} (hlayouts : s'.layouts = s.layouts) (hstables : s'.stables = s.stables) :
    s.Later s' := by
  have hslot : ∀ l i, s'.slot? l i = s.slot? l i := fun l i => by rw [slot?, layout, hlayouts, ← layout, ← slot?]
  have hstable : ∀ t, s'.stable t = s.stable t := fun t => by rw [stable, hstables, ← stable]
  refine ⟨fun l i info h => ⟨info, (hslot l i).trans h, rfl, id⟩, fun l i t h => Or.inl ?_, fun t _ h => ?_,
    fun t _ => ?_⟩
  · rwa [token, hslot]
  · rwa [stableValid, hstable]
  · rw [hstable]

theorem Later.refl (s : Store) : s.Later s := .of_eq rfl rfl

theorem Later.trans {s s' s'' : Store} (hs : s.WellFormed)
    (hgrows : ∀ t, s.Allocated (.stable t) → s'.Allocated (.stable t)) (h : s.Later s')
    (h' : s'.Later s'') : s.Later s'' where
  slots l i info hslot := by
    obtain ⟨info', hslot', hname, hnone⟩ := h.slots l i info hslot
    obtain ⟨info'', hslot'', hname', hnone'⟩ := h'.slots l i info' hslot'
    exact ⟨info'', hslot'', hname'.trans hname, fun hn => hnone' (hnone hn)⟩
  dropped l i t ht := by
    rcases h.dropped l i t ht with ht' | hf
    · exact h'.dropped l i t ht'
    · exact Or.inr (h'.fallen t (hgrows t (hs.token ht)) hf)
  fallen t ha hf := h'.fallen t (hgrows t ha) (h.fallen t ha hf)
  kept t ha := (h'.kept t (hgrows t ha)).trans (h.kept t ha)

section Spares

variable {s s' : Store}

theorem Spares.token (h : s.Spares s') (l : LayoutId) (i : Nat) : s'.token l i = s.token l i := by
  simp only [Store.token, slot?, h.slots]

theorem Spares.stableValid (h : s.Spares s') (t : StableId) :
    s'.stableValid t = s.stableValid t := by
  simp only [Store.stableValid, h.stable]

theorem Spares.content (h : s.Spares s') (a : ActivationId) (i : Nat) :
    s'.content a i = s.content a i := by
  simp only [Store.content, Activation.content, h.contents]

theorem Spares.later (h : s.Spares s') : s.Later s' where
  slots l i info hslot := ⟨info, by rw [slot?, h.slots]; exact hslot, rfl, id⟩
  dropped l i t ht := Or.inl ((h.token l i).trans ht)
  fallen t _ hf := (h.stableValid t).trans hf
  kept t _ := by rw [h.stable]

/-- An activation alive after a change that spares the bindings was alive before. -/
theorem Spares.live_activation (h : s.Spares s') (hs : s.WellFormed) {a : ActivationId}
    (ha : s'.Live (.activation a)) : s.Live (.activation a) :=
  h.leads.live_before hs (h.activations a) ha

theorem Spares.tracks (h : s.Spares s') (hs : s.WellFormed) {pending : LayoutId → Nat → Prop}
    (ht : s.Tracks pending) : s'.Tracks pending where
  kind l i t htoken := by
    rw [h.token] at htoken
    obtain ⟨info, hslot, -⟩ := token_eq_some.1 htoken
    rw [h.kind l (allocated_of_slot? hslot)]
    exact ht.kind l i t htoken
  valid l i t htoken := by
    rw [h.stableValid]
    exact ht.valid l i t ((h.token l i).symm.trans htoken)
  unshared l i k j t hl hk :=
    ht.unshared l i k j t ((h.token l i).symm.trans hl) ((h.token k j).symm.trans hk)
  owned t hvalid := by
    obtain ⟨l, i, hl⟩ := ht.owned t ((h.stableValid t).symm.trans hvalid)
    exact ⟨l, i, (h.token l i).trans hl⟩
  unclaimed l i t hnone htoken := by
    rw [h.stable]
    exact ht.unclaimed l i t ((h.singleton l).symm.trans hnone) ((h.token l i).symm.trans htoken)
  fits a ha := by
    rw [h.contents, h.layoutOf, h.slots]
    exact ht.fits a (h.activations a ha)
  unique a ha hkind := by
    have hold := h.live_activation hs ha
    rw [h.layoutOf, h.singleton]
    rw [h.layoutOf, h.kind _ (layout_allocated hs (hold.allocated hs))] at hkind
    exact ht.unique a hold hkind
  agree a i t ha htoken hnot := by
    rw [h.layoutOf] at htoken hnot
    rw [h.content, h.stable]
    exact ht.agree a i t (h.live_activation hs ha) ((h.token _ i).symm.trans htoken) hnot

end Spares

/-! ## One token for another -/

section OneToken

variable {s s' : Store} {l : LayoutId} {i : Nat} {new : Option StableId}

/-- A token afterwards is the new one, in the place it was made for, or has stayed where it was. -/
theorem token_cases (htoken : ∀ k j, s'.token k j = if k = l ∧ j = i then new else s.token k j)
    {k : LayoutId} {j : Nat} {u : StableId} (hu : s'.token k j = some u) :
    (k = l ∧ j = i) ∧ new = some u ∨ ¬ (k = l ∧ j = i) ∧ s.token k j = some u := by
  rw [htoken] at hu
  split at hu
  · exact Or.inl ⟨‹_›, hu⟩
  · exact Or.inr ⟨‹_›, hu⟩

variable {pending : LayoutId → Nat → Prop}

/-- A new token belongs to no other slot, as no slot could refer to it before. -/
theorem Tracks.unshared_of_fresh (hb : s.Tracks pending) (hs : s.WellFormed)
    (htoken : ∀ k j, s'.token k j = if k = l ∧ j = i then new else s.token k j)
    (hfresh : ∀ n, new = some n → ¬ s.Allocated (.stable n)) (k : LayoutId) (j : Nat) (k' : LayoutId)
    (j' : Nat) (u : StableId) (hu : s'.token k j = some u) (hu' : s'.token k' j' = some u) :
    k = k' ∧ j = j' := by
  rcases token_cases htoken hu with ⟨⟨rfl, rfl⟩, hn⟩ | ⟨-, hold⟩ <;>
    rcases token_cases htoken hu' with ⟨⟨rfl, rfl⟩, hn'⟩ | ⟨-, hold'⟩
  · exact ⟨rfl, rfl⟩
  · exact absurd (hs.token hold') (hfresh u hn)
  · exact absurd (hs.token hold) (hfresh u hn')
  · exact hb.unshared k j k' j' u hold hold'

/-- A valid token is that of a slot, if of the old ones only that of the place itself may have been given
    up without being invalidated. -/
theorem Tracks.owned_of_bounded (hb : s.Tracks pending)
    (htoken : ∀ k j, s'.token k j = if k = l ∧ j = i then new else s.token k j)
    (hold : ∀ u, s.Allocated (.stable u) → s'.stableValid u = true →
      s.stableValid u = true ∧ s.token l i ≠ some u)
    (hbounded : ∀ u, s'.Allocated (.stable u) → s.Allocated (.stable u) ∨ new = some u) (u : StableId)
    (hvalid : s'.stableValid u = true) : ∃ k j, s'.token k j = some u := by
  by_cases ha : s.Allocated (.stable u)
  · obtain ⟨hvalid₀, hne⟩ := hold u ha hvalid
    obtain ⟨k, j, hu⟩ := hb.owned u hvalid₀
    refine ⟨k, j, ?_⟩
    rw [htoken, if_neg]
    · exact hu
    · rintro ⟨rfl, rfl⟩
      exact hne hu
  · refine ⟨l, i, ?_⟩
    rw [htoken, if_pos ⟨rfl, rfl⟩]
    exact (hbounded u (allocated_of_stableValid hvalid)).resolve_left ha

end OneToken

/-! ## Tokens replaced -/

/-- The token of one slot has been replaced by `new`, which describes `v`, or by none. -/
structure Retracks (s s' : Store) (l : LayoutId) (i : Nat) (new : Option StableId)
    (v : Option Value) : Prop where
  leads : s.Leads s'
  held : s'.roots = s.roots
  activations : s'.activations = s.activations
  lookups : s'.lookups = s.lookups
  caches : s'.caches = s.caches
  contexts : s'.contexts = s.contexts
  layout : ∀ k, (s'.layout k).bare = (s.layout k).bare
  size : ∀ k, (s'.layout k).slots.size = (s.layout k).slots.size
  slot : ∀ k j info, s.slot? k j = some info →
    ∃ info', s'.slot? k j = some info' ∧ info'.name = info.name
  token : ∀ k j, s'.token k j = if k = l ∧ j = i then new else s.token k j
  fresh : ∀ n, new = some n →
    ¬ s.Allocated (.stable n) ∧ (s'.stable n).value = v ∧ s'.stableValid n = true
  value : ∀ u, s.Allocated (.stable u) → (s'.stable u).value = (s.stable u).value
  valid : ∀ u, s.Allocated (.stable u) →
    s'.stableValid u = (s.stableValid u && decide (s.token l i ≠ some u))
  bounded : ∀ u, s'.Allocated (.stable u) → s.Allocated (.stable u) ∨ new = some u

namespace Retracks

variable {s s' : Store} {l : LayoutId} {i : Nat} {new : Option StableId} {v : Option Value}

theorem activation (h : s.Retracks s' l i new v) (a : ActivationId) :
    s'.activation a = s.activation a := by
  simp only [Store.activation, h.activations]

theorem layoutOf (h : s.Retracks s' l i new v) (a : ActivationId) : s'.layoutOf a = s.layoutOf a := by
  simp only [Store.layoutOf, h.activation]

theorem content (h : s.Retracks s' l i new v) (a : ActivationId) (j : Nat) :
    s'.content a j = s.content a j := by
  simp only [Store.content, h.activation]

theorem kind (h : s.Retracks s' l i new v) (k : LayoutId) :
    (s'.layout k).kind = (s.layout k).kind := by
  have := congrArg Layout.kind (h.layout k)
  exact this

theorem singleton (h : s.Retracks s' l i new v) (k : LayoutId) :
    (s'.layout k).singleton = (s.layout k).singleton := by
  have := congrArg Layout.singleton (h.layout k)
  exact this

theorem live (h : s.Retracks s' l i new v) (hs : s.WellFormed) {a : ActivationId}
    (ha : s'.Live (.activation a)) : s.Live (.activation a) :=
  h.leads.live_before hs (fun ha => by simpa only [Allocated, h.activations] using ha) ha

theorem later (h : s.Retracks s' l i new v) (hs : s.WellFormed)
    (ht : new ≠ none → s.token l i ≠ none) : s.Later s' where
  slots k j info hslot := by
    obtain ⟨info', hslot', hname⟩ := h.slot k j info hslot
    refine ⟨info', hslot', hname, fun hnone => ?_⟩
    have htoken := h.token k j
    simp only [Store.token, hslot, hslot', Option.bind_some, hnone] at htoken
    rw [htoken]
    split
    · rename_i hkj
      obtain ⟨rfl, rfl⟩ := hkj
      by_contra hn
      exact ht hn (by simp [Store.token, hslot, hnone])
    · rfl
  dropped k j u hu := by
    rw [h.token]
    by_cases hkj : k = l ∧ j = i
    · obtain ⟨rfl, rfl⟩ := hkj
      right
      rw [h.valid u (hs.token hu), hu]
      simp
    · rw [if_neg hkj]
      exact Or.inl hu
  fallen u ha hf := by
    rw [h.valid u ha, hf, Bool.false_and]
  kept := h.value

/-- A new token is in step except where the content of its slot has not been changed yet. -/
theorem tracks (h : s.Retracks s' l i new v) (hs : s.WellFormed)
    (ht : new ≠ none → s.token l i ≠ none) (hclaimed : v = none ∨ (s.layout l).singleton ≠ none)
    {pending pending' : LayoutId → Nat → Prop} (hb : s.Tracks pending)
    (hpending : ∀ k j, ¬ pending' k j → ¬ pending k j ∨ k = l ∧ j = i)
    (hagree : ∀ a, s.Live (.activation a) → s.layoutOf a = l → new ≠ none → ¬ pending' l i →
      s.content a i = .ofOption v) : s'.Tracks pending' where
  kind k j u hu := by
    rw [h.kind]
    rcases token_cases h.token hu with ⟨⟨rfl, rfl⟩, hn⟩ | ⟨-, hold⟩
    · obtain ⟨t, ht⟩ := Option.ne_none_iff_exists'.1 (ht (hn ▸ Option.some_ne_none u))
      exact hb.kind _ _ t ht
    · exact hb.kind k j u hold
  valid k j u hu := by
    rcases token_cases h.token hu with ⟨-, hn⟩ | ⟨hkj, hold⟩
    · exact (h.fresh u hn).2.2
    · rw [h.valid u (hs.token hold), hb.valid k j u hold, Bool.true_and, decide_eq_true_eq]
      exact fun hl => hkj (hb.unshared k j l i u hold hl)
  unshared := hb.unshared_of_fresh hs h.token fun n hn => (h.fresh n hn).1
  owned := by
    refine hb.owned_of_bounded h.token (fun u ha hvalid => ?_) h.bounded
    rwa [h.valid u ha, Bool.and_eq_true, decide_eq_true_eq] at hvalid
  unclaimed k j u hnone hu := by
    rw [h.singleton] at hnone
    rcases token_cases h.token hu with ⟨⟨rfl, rfl⟩, hn⟩ | ⟨-, hold⟩
    · rw [(h.fresh u hn).2.1]
      exact hclaimed.resolve_right fun hc => hc hnone
    · rw [h.value u (hs.token hold)]
      exact hb.unclaimed k j u hnone hold
  fits a ha := by
    rw [h.activation, h.layoutOf, h.size]
    refine hb.fits a ?_
    simpa only [Allocated, h.activations] using ha
  unique a ha hkind := by
    rw [h.layoutOf] at hkind ⊢
    rw [h.kind] at hkind
    rw [h.singleton]
    exact hb.unique a (h.live hs ha) hkind
  agree a j u ha hu hnot := by
    rw [h.layoutOf] at hu hnot
    rw [h.content]
    have ha := h.live hs ha
    rcases token_cases h.token hu with ⟨⟨rfl, rfl⟩, hn⟩ | ⟨hkj, hold⟩
    · rw [(h.fresh u hn).2.1]
      exact hagree a ha rfl (hn ▸ Option.some_ne_none u) hnot
    · rw [h.value u (hs.token hold)]
      exact hb.agree a j u ha hold ((hpending _ _ hnot).resolve_right hkj)

end Retracks

end Store

theorem Layout.mem_refs_modifySlot {l : Layout} {i : Nat} {f : SlotInfo → SlotInfo}
    {new : Option StableId} (hf : ∀ info, (f info).stable = new) {r : Ref}
    (hr : r ∈ (l.modifySlot i f).refs) : r ∈ l.refs ∨ ∃ n, new = some n ∧ r = .stable n := by
  simp only [Layout.refs, Layout.modifySlot, List.mem_append, List.mem_filterMap] at hr ⊢
  rcases hr with ⟨info, hinfo, hstable⟩ | hr
  · obtain ⟨j, hj⟩ := Array.mem_iff_getElem?.1 (Array.mem_toList_iff.1 hinfo)
    rw [Array.getElem?_modify] at hj
    split at hj
    · obtain ⟨old, -, rfl⟩ := Option.map_eq_some_iff.1 hj
      rw [hf] at hstable
      obtain ⟨n, hn, rfl⟩ := Option.map_eq_some_iff.1 hstable
      exact Or.inr ⟨n, hn, rfl⟩
    · exact Or.inl (Or.inl
        ⟨info, Array.mem_toList_iff.2 (Array.mem_iff_getElem?.2 ⟨j, hj⟩), hstable⟩)
  · exact Or.inl (Or.inr hr)

namespace Store

section

variable {s : Store} {l : LayoutId} {i : Nat}

theorem bare_modifySlot (s : Store) (l k : LayoutId) (i : Nat) (f : SlotInfo → SlotInfo) :
    ((s.modifySlot l i f).layout k).bare = (s.layout k).bare :=
  s.layout_modifyLayout_congr Layout.bare l k _ rfl

theorem size_modifySlot (s : Store) (l k : LayoutId) (i : Nat) (f : SlotInfo → SlotInfo) :
    ((s.modifySlot l i f).layout k).slots.size = (s.layout k).slots.size :=
  s.layout_modifyLayout_congr (·.slots.size) l k _ (by simp [Layout.modifySlot])

theorem token_modifySlot {info : SlotInfo} (hslot : s.slot? l i = some info)
    {f : SlotInfo → SlotInfo} {new : Option StableId} (hf : ∀ info, (f info).stable = new)
    (k : LayoutId) (j : Nat) :
    (s.modifySlot l i f).token k j = if k = l ∧ j = i then new else s.token k j := by
  rw [token, slot?_modifySlot]
  split
  · rename_i hkj
    obtain ⟨rfl, rfl⟩ := hkj
    simp [hslot, hf]
  · rfl

/-- A slot whose name stays keeps its place. -/
theorem slot?_modifySlot_name {f : SlotInfo → SlotInfo} (hf : ∀ info, (f info).name = info.name)
    {k : LayoutId} {j : Nat} {info : SlotInfo} (h : s.slot? k j = some info) :
    ∃ info', (s.modifySlot l i f).slot? k j = some info' ∧ info'.name = info.name := by
  rw [slot?_modifySlot]
  split
  · exact ⟨f info, by rw [h]; rfl, hf info⟩
  · exact ⟨info, h, rfl⟩

theorem leads_modifySlot {s₁ : Store} (h : s.Leads s₁) {f : SlotInfo → SlotInfo}
    {new : Option StableId} (hf : ∀ info, (f info).stable = new)
    (hnew : ∀ n, new = some n → s.Within s₁ (.stable n)) : s.Leads (s₁.modifySlot l i f) := by
  refine h.modifyLayout (fun r hr => ?_) fun r hr => Or.inl hr
  refine (Layout.mem_refs_modifySlot hf hr).imp_right ?_
  rintro ⟨n, hn, rfl⟩
  exact hnew n hn

/-- A change of one slot, on top of changes to the stable values. -/
theorem retracks_modifySlot {s₂ : Store} {f : SlotInfo → SlotInfo} {new : Option StableId}
    {v : Option Value} (hslot : ∃ info, s.slot? l i = some info)
    (hname : ∀ info, (f info).name = info.name) (hf : ∀ info, (f info).stable = new)
    (hleads : s.Leads s₂) (hwithin : ∀ n, new = some n → s.Within s₂ (.stable n))
    (hlayouts : s₂.layouts = s.layouts) (hheld : s₂.roots = s.roots)
    (hactivations : s₂.activations = s.activations) (hlookups : s₂.lookups = s.lookups)
    (hcaches : s₂.caches = s.caches) (hcontexts : s₂.contexts = s.contexts)
    (hfresh : ∀ n, new = some n →
      ¬ s.Allocated (.stable n) ∧ (s₂.stable n).value = v ∧ s₂.stableValid n = true)
    (hvalue : ∀ u, s.Allocated (.stable u) → (s₂.stable u).value = (s.stable u).value)
    (hvalid : ∀ u, s.Allocated (.stable u) →
      s₂.stableValid u = (s.stableValid u && decide (s.token l i ≠ some u)))
    (hbounded : ∀ u, s₂.Allocated (.stable u) → s.Allocated (.stable u) ∨ new = some u) :
    s.Retracks (s₂.modifySlot l i f) l i new v := by
  have hlayout : ∀ k, s₂.layout k = s.layout k := fun k => by simp only [layout, hlayouts]
  have hslot₂ : ∀ k j, s₂.slot? k j = s.slot? k j := fun k j => by simp only [slot?, hlayout]
  obtain ⟨info, hslot⟩ := hslot
  exact {
    leads := leads_modifySlot hleads hf hwithin
    held := hheld
    activations := hactivations
    lookups := hlookups
    caches := hcaches
    contexts := hcontexts
    layout k := by rw [bare_modifySlot, hlayout]
    size k := by rw [size_modifySlot, hlayout]
    slot k j _ h := slot?_modifySlot_name hname ((hslot₂ k j).trans h)
    token k j := by rw [token_modifySlot ((hslot₂ l i).trans hslot) hf, token, token, hslot₂]
    fresh := hfresh
    value := hvalue
    valid := hvalid
    bounded := hbounded }

/-- The token of a slot is invalidated and given up, whatever else becomes of the slot. -/
theorem retracks_untrack {info : SlotInfo} (hs : s.WellFormed)
    (hslot : s.slot? l i = some info) {t : StableId} (ht : info.stable = some t)
    {f : SlotInfo → SlotInfo} (hname : ∀ info, (f info).name = info.name)
    (hf : ∀ info, (f info).stable = none) (v : Option Value) :
    s.Retracks ((s.invalidateStable t).modifySlot l i f) l i none v := by
  have htoken : s.token l i = some t := token_eq_some.2 ⟨info, hslot, ht⟩
  refine retracks_modifySlot ⟨info, hslot⟩ hname hf ((Leads.refl s).invalidateStable t)
    (fun _ hn => by simp at hn) rfl rfl rfl rfl rfl rfl (fun _ hn => by simp at hn)
    (fun u _ => value_invalidateStable s t u) (fun u _ => ?_)
    (fun u hu => Or.inl ((Leads.allocated_invalidateStable _ t _).1 hu))
  rw [stableValid_invalidateStable s u (hs.token htoken), htoken]
  simp [eq_comm]

/-- The token of a slot is invalidated, and replaced by a new one. -/
theorem retracks_retrack {info : SlotInfo} (hs : s.WellFormed)
    (hslot : s.slot? l i = some info) {t : StableId} (ht : info.stable = some t) {v : Option Value}
    (hv : ∀ r ∈ (v.map Value.refs).getD [], s.Live r) (label : String) {n : StableId}
    (hn : n.index = s.stables.size) {f : SlotInfo → SlotInfo}
    (hname : ∀ info, (f info).name = info.name) (hf : ∀ info, (f info).stable = some n) :
    s.Retracks (((s.invalidateStable t).addStable label v).modifySlot l i f) l i (some n) v := by
  have htoken : s.token l i = some t := token_eq_some.2 ⟨info, hslot, ht⟩
  have hsize : (s.invalidateStable t).stables.size = s.stables.size := by
    simp [invalidateStable]
  have hsize' : ((s.invalidateStable t).addStable label v).stables.size = s.stables.size + 1 := by
    simp [addStable, hsize]
  have hnot : ¬ s.Allocated (.stable n) := by
    simp only [Allocated, hn, Nat.lt_irrefl, not_false_iff]
  have hnew : ((s.invalidateStable t).addStable label v).stable n = ⟨v, ⟨label, true⟩⟩ := by
    rw [stable_addStable, if_pos (hn.trans hsize.symm)]
  have hold : ∀ u : StableId, s.Allocated (.stable u) →
      ((s.invalidateStable t).addStable label v).stable u = (s.invalidateStable t).stable u := by
    intro u hu
    rw [stable_addStable, if_neg]
    rw [hsize]
    exact Nat.ne_of_lt hu
  refine retracks_modifySlot ⟨info, hslot⟩ hname hf
    (((Leads.refl s).invalidateStable t).addStable label fun r hr => Or.inl (hv r hr))
    ?_ rfl rfl rfl rfl rfl rfl ?_ ?_ ?_ ?_
  · rintro _ ⟨rfl⟩
    refine Or.inr ⟨hnot, ?_⟩
    simp only [Allocated, hsize', hn, Nat.lt_succ_self]
  · rintro _ ⟨rfl⟩
    refine ⟨hnot, ?_, ?_⟩
    · rw [hnew]
    · rw [stableValid, hnew]
  · intro u hu
    rw [hold u hu, value_invalidateStable]
  · intro u hu
    rw [stableValid, hold u hu, ← stableValid, stableValid_invalidateStable s u (hs.token htoken),
      htoken]
    simp [eq_comm]
  · intro u hu
    simp only [Allocated, hsize'] at hu ⊢
    rcases Nat.lt_succ_iff_lt_or_eq.1 hu with h | h
    · exact Or.inl h
    · exact Or.inr (congrArg some (congrArg StableId.mk (hn.trans h.symm)))

/-- Recording a change of value replaces the token of the slot. -/
theorem retracks_replaceStable {info : SlotInfo} (hs : s.WellFormed)
    (hslot : s.slot? l i = some info) {t : StableId} (ht : info.stable = some t) {v : Option Value}
    (hv : ∀ r ∈ (v.map Value.refs).getD [], s.Live r) :
    ∃ new, s.Retracks (s.replaceStable l i info t v) l i new v := by
  have hsize : (s.invalidateStable t).stables.size = s.stables.size := by
    simp [invalidateStable]
  rw [replaceStable]
  split
  · exact ⟨_, retracks_retrack hs hslot ht hv _ hsize (fun _ => rfl) (fun _ => rfl)⟩
  · exact ⟨none, retracks_untrack (f := SlotInfo.untrack) hs hslot ht (fun _ => rfl)
      (fun _ => rfl) v⟩

/-- Giving a slot up leaves it without a token. -/
theorem retracks_dropStable {info : SlotInfo} (hs : s.WellFormed)
    (hslot : s.slot? l i = some info) : s.Retracks (s.dropStable l i) l i none none := by
  cases ht : info.stable with
  | some t =>
      simp only [dropStable, hslot, ht]
      exact retracks_untrack (f := SlotInfo.giveUp) hs hslot ht (fun _ => rfl) (fun _ => rfl) none
  | none =>
      have htoken : s.token l i = none := by simp [token, hslot, ht]
      simp only [dropStable, hslot, ht]
      refine retracks_modifySlot (f := SlotInfo.giveUp) ⟨info, hslot⟩ (fun _ => rfl) (fun _ => rfl)
        (Leads.refl s) (fun _ hn => by simp at hn) rfl rfl rfl rfl rfl rfl
        (fun _ hn => by simp at hn) (fun _ _ => rfl) (fun u _ => ?_) (fun _ hu => Or.inl hu)
      simp [htoken]

end

/-! ## Contents replaced -/

end Store

theorem ContextValues.mem_grow {vs : ContextValues} {size : Nat} {v : Value}
    (h : some v ∈ (vs.grow size).toList) : some v ∈ vs.toList := by
  simp only [ContextValues.grow, Array.toList_append, List.mem_append, Array.mem_toList_iff,
    Array.mem_replicate] at h ⊢
  exact h.resolve_right fun hc => by simp at hc

theorem ContextValues.mem_write {vs : ContextValues} {context : Nat} {w : Option Value} {v : Value}
    (h : some v ∈ (vs.write context w).toList) : some v ∈ vs.toList ∨ some v = w := by
  obtain ⟨j, hj⟩ := Array.mem_iff_getElem?.1 (Array.mem_toList_iff.1 h)
  rw [ContextValues.write, Array.getElem?_setIfInBounds] at hj
  split at hj
  · split at hj
    · exact Or.inr (Option.some.inj hj).symm
    · simp at hj
  · exact Or.inl (ContextValues.mem_grow (Array.mem_toList_iff.2 (Array.mem_of_getElem? hj)))

theorem SlotContent.mem_values_fanOut {vs : ContextValues} {v : Value} :
    v ∈ (SlotContent.fanOut vs).values ↔ some v ∈ vs.toList := by
  simp [SlotContent.values]

theorem Activation.mem_refs_setContent {a : Activation} {i : Nat} {c : SlotContent} {r : Ref}
    (hr : r ∈ (a.setContent i c).refs) : r ∈ a.refs ∨ r ∈ c.values.flatMap Value.refs := by
  simp only [Activation.refs, Activation.setContent, List.mem_append, List.mem_flatMap] at hr ⊢
  rcases hr with hr | ⟨c', hc', hr⟩
  · exact Or.inl (Or.inl hr)
  · obtain ⟨j, hj⟩ := Array.mem_iff_getElem?.1 (Array.mem_toList_iff.1 hc')
    rw [Array.getElem?_setIfInBounds] at hj
    split at hj
    · split at hj
      · obtain rfl := Option.some.inj hj
        exact Or.inr hr
      · simp at hj
    · have hmem := Array.mem_append.1 (Array.mem_of_getElem? hj)
      rcases hmem with hmem | hmem
      · exact Or.inl (Or.inr ⟨c', Array.mem_toList_iff.2 hmem, hr⟩)
      · obtain ⟨-, rfl⟩ := Array.mem_replicate.1 hmem
        simp [SlotContent.values] at hr

theorem Activation.size_setContent (a : Activation) (i : Nat) (c : SlotContent) :
    (a.setContent i c).contents.size = max a.contents.size (i + 1) := by
  simp only [Activation.setContent, Array.size_setIfInBounds, Array.size_append,
    Array.size_replicate]
  omega

namespace Store

section

variable {s : Store}

theorem leads_setContent {s₁ : Store} (h : s.Leads s₁) {a : ActivationId} {i : Nat}
    {c : SlotContent} (hc : ∀ v ∈ c.values, ∀ r ∈ v.refs, s.Within s₁ r) :
    s.Leads (s₁.setContent a i c) := by
  refine h.modifyActivation fun r hr => ?_
  refine (Activation.mem_refs_setContent hr).imp_right fun hin => ?_
  obtain ⟨v, hv, hr⟩ := List.mem_flatMap.1 hin
  exact hc v hv r hr

theorem later_setContent (s : Store) (a : ActivationId) (i : Nat) (c : SlotContent) :
    s.Later (s.setContent a i c) :=
  .of_eq rfl rfl

/-- Where layouts and stable values are as they were, what has to be looked at again is what activations
    hold. -/
theorem Tracks.of_activations {s' : Store} {pending pending' : LayoutId → Nat → Prop} (hb : s.Tracks pending)
    (hlayouts : s'.layouts = s.layouts) (hstables : s'.stables = s.stables)
    (hfits : ∀ a, s'.Allocated (.activation a) →
      (s'.activation a).contents.size ≤ (s.layout (s'.layoutOf a)).slots.size)
    (hunique : ∀ a, s'.Live (.activation a) → (s.layout (s'.layoutOf a)).kind.isSingleton = true →
      (s.layout (s'.layoutOf a)).singleton = some a)
    (hagree : ∀ a i t, s'.Live (.activation a) → s.token (s'.layoutOf a) i = some t →
      ¬ pending' (s'.layoutOf a) i → s'.content a i = .ofOption (s.stable t).value) :
    s'.Tracks pending' := by
  have hlayout : s'.layout = s.layout := by
    unfold Store.layout
    rw [hlayouts]
  have htoken : s'.token = s.token := by
    unfold Store.token Store.slot?
    rw [hlayout]
  have hstable : s'.stable = s.stable := by
    unfold Store.stable
    rw [hstables]
  have hvalid : s'.stableValid = s.stableValid := by
    unfold Store.stableValid
    rw [hstable]
  exact {
    kind := by
      rw [htoken, hlayout]
      exact hb.kind
    valid := by
      rw [htoken, hvalid]
      exact hb.valid
    unshared := by
      rw [htoken]
      exact hb.unshared
    owned := by
      rw [htoken, hvalid]
      exact hb.owned
    unclaimed := by
      rw [htoken, hlayout, hstable]
      exact hb.unclaimed
    fits := by
      rw [hlayout]
      exact hfits
    unique := by
      rw [hlayout]
      exact hunique
    agree := by
      rw [htoken, hstable]
      exact hagree }

/-- Storing the content that the token describes, or any content where there is no token. -/
theorem tracks_stored {s' : Store} {pending pending' : LayoutId → Nat → Prop} (hs : s.WellFormed)
    (hb : s.Tracks pending) {a : ActivationId} (ha : s.Live (.activation a)) {i : Nat}
    {c : SlotContent} (hleads : s.Leads s') (hlayouts : s'.layouts = s.layouts)
    (hstables : s'.stables = s.stables)
    (hactivations : s'.activations = (s.setContent a i c).activations)
    (hi : i < (s.layout (s.layoutOf a)).slots.size)
    (hpending : ∀ k j, ¬ pending' k j → ¬ pending k j ∨ k = s.layoutOf a ∧ j = i)
    (hagree : ∀ t, s.token (s.layoutOf a) i = some t → ¬ pending' (s.layoutOf a) i →
      c = .ofOption (s.stable t).value) : s'.Tracks pending' := by
  have halloc : ∀ b, s'.Allocated (.activation b) → s.Allocated (.activation b) := by
    intro b hb
    have hb : b.index < s'.activations.size := hb
    rw [hactivations] at hb
    exact (Leads.allocated_modifyActivation s a (·.setContent i c) (.activation b)).1 hb
  have hlive : ∀ b, s'.Live (.activation b) → s.Live (.activation b) := fun b =>
    hleads.live_before hs (halloc b)
  have hact : ∀ b, s'.activation b = (s.setContent a i c).activation b := fun b => by
    simp only [activation, hactivations]
  have hlayoutOf : ∀ b, s'.layoutOf b = s.layoutOf b := fun b => by
    rw [Store.layoutOf, hact]
    exact layoutOf_setContent s a b i c
  refine hb.of_activations hlayouts hstables (fun b hb' => ?fits) (fun b hb' hkind => ?unique)
    fun b j t hb' ht hnot => ?agree
  case fits =>
    have hfits := hb.fits b (halloc b hb')
    rw [hlayoutOf, hact, setContent, activation_modifyActivation]
    split
    · rename_i h
      obtain ⟨rfl, -⟩ := h
      rw [Activation.size_setContent]
      exact max_le hfits hi
    · exact hfits
  case unique =>
    rw [hlayoutOf] at hkind ⊢
    exact hb.unique b (hlive b hb') hkind
  case agree =>
    rw [hlayoutOf] at ht hnot
    rw [content, hact, ← content, content_setContent s b i j c (ha.allocated hs)]
    have hlb := hlive b hb'
    split
    · rename_i h
      obtain ⟨rfl, rfl⟩ := h
      exact hagree t ht hnot
    · -- The slot is that of another activation, as a tracked one has no more than one that is alive.
      rename_i h
      refine hb.agree b j t hlb ht ((hpending _ _ hnot).resolve_right ?_)
      rintro ⟨hl, rfl⟩
      have hkind := hb.kind _ _ t ht
      have hown := hb.unique b hlb hkind
      rw [hl] at hown hkind
      exact h ⟨Option.some.inj (hown.symm.trans (hb.unique a ha hkind)), rfl⟩

/-- What a context sees of a slot that has been cleaned. -/
theorem SlotContent.clean_ofOption (contexts : Option (List Nat)) (v : Option Value) :
    SlotContent.clean contexts (.ofOption v) = .ofOption v := by
  cases v <;> rfl

theorem SlotContent.mem_values_clean (contexts : Option (List Nat)) {c : SlotContent} {v : Value}
    (h : v ∈ (SlotContent.clean contexts c).values) : v ∈ c.values := by
  cases c with
  | empty => exact h
  | value => exact h
  | fanOut vs =>
      have hclear : ∀ {vs : ContextValues} {cs : List Nat},
          v ∈ (SlotContent.fanOut (cs.foldl ContextValues.clear vs)).values →
          v ∈ (SlotContent.fanOut vs).values := by
        intro vs cs
        induction cs generalizing vs with
        | nil => exact id
        | cons c cs ih =>
            intro hv
            have hv := ih hv
            simp only [SlotContent.values, ContextValues.clear, List.mem_filterMap, id,
              Array.mem_toList_iff, exists_eq_right] at hv ⊢
            obtain ⟨j, hj⟩ := Array.mem_iff_getElem?.1 hv
            rw [Array.getElem?_setIfInBounds] at hj
            split at hj
            · split at hj <;> simp at hj
            · exact Array.mem_of_getElem? hj
      cases contexts with
      | some cs => exact hclear h
      | none =>
          simp only [SlotContent.clean, SlotContent.values, ContextValues.clearOthers,
            List.mem_filterMap, id, Array.mem_toList_iff, exists_eq_right] at h ⊢
          obtain ⟨j, hj⟩ := Array.mem_iff_getElem?.1 h
          rw [Array.getElem?_mapIdx, Option.map_eq_some_iff] at hj
          obtain ⟨w, hw, hv⟩ := hj
          split at hv
          · exact Array.mem_of_getElem? (hv ▸ hw)
          · simp at hv

theorem leads_cleanFanOut (s : Store) (a : ActivationId) (contexts : Option (List Nat)) :
    s.Leads (s.cleanFanOut a contexts) := by
  refine (Leads.refl s).modifyActivation fun r hr => Or.inl ?_
  simp only [Activation.refs, List.mem_append, List.mem_flatMap, Array.toList_map,
    List.mem_map, exists_exists_and_eq_and] at hr ⊢
  rcases hr with hr | ⟨c, hc, v, hv, hr⟩
  · exact Or.inl hr
  · exact Or.inr ⟨c, hc, v, SlotContent.mem_values_clean contexts hv, hr⟩

/-- Cleaning concerns slots that are not tracked only. -/
theorem tracks_cleanFanOut (hs : s.WellFormed) (hb : s.Bindings) (a : ActivationId)
    (contexts : Option (List Nat)) : (s.cleanFanOut a contexts).Bindings := by
  have hleads := s.leads_cleanFanOut a contexts
  have hlayout : ∀ b, (s.cleanFanOut a contexts).layoutOf b = s.layoutOf b := fun b =>
    s.activation_modifyActivation_congr Activation.layout a b _ rfl
  have halloc : ∀ b, (s.cleanFanOut a contexts).Allocated (.activation b) → s.Allocated (.activation b) :=
    fun b => (Leads.allocated_modifyActivation _ a _ _).1
  have hlive : ∀ b, (s.cleanFanOut a contexts).Live (.activation b) → s.Live (.activation b) := fun b =>
    hleads.live_before hs (halloc b)
  refine hb.of_activations rfl rfl (fun b hb' => ?fits) (fun b hb' hkind => ?unique)
    fun b j t hb' htoken _ => ?agree
  case fits =>
    have hsize : ((s.cleanFanOut a contexts).activation b).contents.size
        = (s.activation b).contents.size :=
      s.activation_modifyActivation_congr (·.contents.size) a b _ (by simp)
    rw [hlayout, hsize]
    exact hb.fits b (halloc b hb')
  case unique =>
    rw [hlayout] at hkind ⊢
    exact hb.unique b (hlive b hb') hkind
  case agree =>
    rw [hlayout] at htoken
    have hagree := hb.agree b j t (hlive b hb') htoken not_false
    rw [cleanFanOut, content, activation_modifyActivation]
    split
    · rename_i h
      obtain ⟨rfl, -⟩ := h
      refine Eq.trans ?_ (SlotContent.clean_ofOption contexts (s.stable t).value)
      rw [← hagree, content, Activation.content, Activation.content, Array.getElem?_map]
      cases (s.activation b).contents[j]? <;> rfl
    · exact hagree

end

/-! ## Slots added -/

/-- A slot for a name has been added to a layout. -/
structure Widens (s s' : Store) (l : LayoutId) (info : SlotInfo) : Prop where
  leads : s.Leads s'
  held : s'.roots = s.roots
  activations : s'.activations = s.activations
  lookups : s'.lookups = s.lookups
  caches : s'.caches = s.caches
  contexts : s'.contexts = s.contexts
  layout : ∀ k, (s'.layout k).bare = (s.layout k).bare
  slots : (s'.layout l).slots = (s.layout l).slots.push info
  others : ∀ k, k ≠ l → (s'.layout k).slots = (s.layout k).slots
  tracked : ∀ n, info.stable = some n → (s.layout l).kind.isSingleton = true
    ∧ ¬ s.Allocated (.stable n) ∧ (s'.stable n).value = none ∧ s'.stableValid n = true
  stable : ∀ u, s.Allocated (.stable u) → s'.stable u = s.stable u
  bounded : ∀ u, s'.Allocated (.stable u) → s.Allocated (.stable u) ∨ info.stable = some u

namespace Widens

variable {s s' : Store} {l : LayoutId} {info : SlotInfo}

theorem activation (h : s.Widens s' l info) (a : ActivationId) :
    s'.activation a = s.activation a := by
  simp only [Store.activation, h.activations]

theorem layoutOf (h : s.Widens s' l info) (a : ActivationId) : s'.layoutOf a = s.layoutOf a := by
  simp only [Store.layoutOf, h.activation]

theorem kind (h : s.Widens s' l info) (k : LayoutId) :
    (s'.layout k).kind = (s.layout k).kind := by
  have := congrArg Layout.kind (h.layout k)
  exact this

theorem singleton (h : s.Widens s' l info) (k : LayoutId) :
    (s'.layout k).singleton = (s.layout k).singleton := by
  have := congrArg Layout.singleton (h.layout k)
  exact this

theorem slot? (h : s.Widens s' l info) (k : LayoutId) (j : Nat) :
    s'.slot? k j
      = if k = l ∧ j = (s.layout l).slots.size then some info else s.slot? k j := by
  by_cases hk : k = l
  · subst hk
    simp only [Store.slot?, h.slots, Array.getElem?_push, true_and]
  · rw [Store.slot?, h.others k hk, if_neg fun hc => hk hc.1, Store.slot?]

theorem token (h : s.Widens s' l info) (k : LayoutId) (j : Nat) :
    s'.token k j
      = if k = l ∧ j = (s.layout l).slots.size then info.stable else s.token k j := by
  rw [Store.token, h.slot?]
  split <;> rfl

/-- A slot that was there before is not the new one. -/
theorem not_new {k : LayoutId} {j : Nat} {info' : SlotInfo} (hslot : s.slot? k j = some info') :
    ¬ (k = l ∧ j = (s.layout l).slots.size) := by
  rintro ⟨rfl, rfl⟩
  simp [Store.slot?] at hslot

theorem later (h : s.Widens s' l info) : s.Later s' where
  slots k j info' hslot := by
    refine ⟨info', ?_, rfl, id⟩
    rw [h.slot?, if_neg (not_new hslot)]
    exact hslot
  dropped k j u hu := by
    obtain ⟨info', hslot, -⟩ := token_eq_some.1 hu
    rw [h.token, if_neg (not_new hslot)]
    exact Or.inl hu
  fallen u ha hf := by
    rw [stableValid, h.stable u ha]
    exact hf
  kept u ha := by rw [h.stable u ha]

theorem live (h : s.Widens s' l info) (hs : s.WellFormed) {a : ActivationId}
    (ha : s'.Live (.activation a)) : s.Live (.activation a) :=
  h.leads.live_before hs (fun ha => by simpa only [Allocated, h.activations] using ha) ha

theorem tracks (h : s.Widens s' l info) (hs : s.WellFormed)
    (hb : s.Bindings) : s'.Bindings where
  kind k j u hu := by
    rw [h.kind]
    rcases token_cases h.token hu with ⟨⟨rfl, rfl⟩, hn⟩ | ⟨-, hold⟩
    · exact (h.tracked u hn).1
    · exact hb.kind k j u hold
  valid k j u hu := by
    rcases token_cases h.token hu with ⟨-, hn⟩ | ⟨-, hold⟩
    · exact (h.tracked u hn).2.2.2
    · rw [stableValid, h.stable u (hs.token hold)]
      exact hb.valid k j u hold
  unshared := hb.unshared_of_fresh hs h.token fun n hn => (h.tracked n hn).2.1
  owned := by
    refine hb.owned_of_bounded h.token (fun u ha hvalid => ⟨?_, fun hu => ?_⟩) h.bounded
    · rwa [stableValid, h.stable u ha] at hvalid
    · exact Nat.lt_irrefl _ (token_lt hu)
  unclaimed k j u hnone hu := by
    rw [h.singleton] at hnone
    rcases token_cases h.token hu with ⟨-, hn⟩ | ⟨-, hold⟩
    · exact (h.tracked u hn).2.2.1
    · rw [h.stable u (hs.token hold)]
      exact hb.unclaimed k j u hnone hold
  fits a ha := by
    rw [h.activation, h.layoutOf]
    have hfits := hb.fits a (by simpa only [Allocated, h.activations] using ha)
    by_cases hl : s.layoutOf a = l
    · rw [hl, h.slots, Array.size_push]
      rw [hl] at hfits
      exact Nat.le_succ_of_le hfits
    · rw [h.others _ hl]
      exact hfits
  unique a ha hkind := by
    rw [h.layoutOf] at hkind ⊢
    rw [h.kind] at hkind
    rw [h.singleton]
    exact hb.unique a (h.live hs ha) hkind
  agree a j u ha hu _ := by
    rw [h.layoutOf] at hu
    have ha := h.live hs ha
    rw [content, h.activation]
    rcases token_cases h.token hu with ⟨⟨rfl, rfl⟩, hn⟩ | ⟨-, hold⟩
    · -- Nothing is stored yet in a slot that has only just been made.
      rw [(h.tracked u hn).2.2.1]
      have hfits := hb.fits a (ha.allocated hs)
      simp [Activation.content, Array.getElem?_eq_none hfits, SlotContent.ofOption]
    · rw [h.stable u (hs.token hold)]
      exact hb.agree a j u ha hold not_false

end Widens

end Store

end ScopeCall
