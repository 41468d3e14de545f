import ScopeCall.Proofs.Counting

/-!
# `ScopeCall.Proofs.Reachability` — being alive, and what an operation may do to it

In a store whose references all lead to objects that exist, the computed live set is the defined one.
An operation only leaves references behind that lead to what was alive before, or to what it made
itself; so nothing that was dead comes back to life.

## Contents
- **Existing objects.** `Store.Allocated`, and `Store.WellFormed`: every reference leads to an object
  that exists.
- **The live set.** `isLive_iff`: counting agrees with the definition.
- **Being alive.** What keeps what alive.
- **Leading on.** `Store.Leads`, the relation between the store before and after an operation, and
  `Leads.live`: what is alive afterwards was alive before, or is new.
-/

namespace ScopeCall

namespace Store

/-! ## Existing objects -/

/-- The object has been made. -/
def Allocated (s : Store) : Ref → Prop
  | .layout l     => l.index < s.layouts.size
  | .activation a => a.index < s.activations.size
  | .callable c   => c.index < s.callables.size
  | .list l       => l.index < s.heap.lists.size
  | .group g      => g.index < s.heap.groups.size
  | .stable t     => t.index < s.stables.size
  | .cache c      => c.index < s.caches.size
  | .site i       => i.index < s.sites.size

instance (s : Store) : DecidablePred s.Allocated := fun r => by
  cases r <;> exact Nat.decLt _ _

end Store

/-- The links of a layout that keep nothing alive. -/
def Layout.weakRefs (l : Layout) : List Ref :=
  l.children.map Ref.layout ++ l.enclosing.toList.map Ref.layout
    ++ l.singleton.toList.map Ref.activation

namespace Store

/-- Every reference and every weak link leads to an object that exists. -/
structure WellFormed (s : Store) : Prop where
  roots : ∀ r ∈ s.roots, s.Allocated r
  refs : ∀ q, ∀ r ∈ s.refs q, s.Allocated r
  weak : ∀ l, ∀ r ∈ (s.layout l).weakRefs, s.Allocated r

/-- What was never made refers to nothing. -/
theorem refs_of_not_allocated {s : Store} {q : Ref} (hq : ¬ s.Allocated q) : s.refs q = [] := by
  cases q <;> simp only [Allocated, Nat.not_lt] at hq <;>
    simp [refs, Heap.items, Heap.entries, Array.getElem?_eq_none hq]

/-! ## The live set -/

theorem position_injective {s : Store} {r q : Ref} (hr : s.Allocated r) (hq : s.Allocated q)
    (h : s.position r = s.position q) : r = q := by
  rcases r with ⟨⟨i⟩⟩ | ⟨⟨i⟩⟩ | ⟨⟨i⟩⟩ | ⟨⟨i⟩⟩ | ⟨⟨i⟩⟩ | ⟨⟨i⟩⟩ | ⟨⟨i⟩⟩ | ⟨⟨i⟩⟩ <;>
    rcases q with ⟨⟨j⟩⟩ | ⟨⟨j⟩⟩ | ⟨⟨j⟩⟩ | ⟨⟨j⟩⟩ | ⟨⟨j⟩⟩ | ⟨⟨j⟩⟩ | ⟨⟨j⟩⟩ | ⟨⟨j⟩⟩ <;>
    simp only [Allocated, position, Ref.layout.injEq, LayoutId.mk.injEq] at hr hq h ⊢ <;>
    first
      | omega
      | (obtain rfl : i = j := by omega
         rfl)

theorem outgoing_position {s : Store} {q : Ref} (hq : s.Allocated q) :
    s.outgoing[s.position q]? = some (s.refs q) := by
  cases q <;> simp only [Allocated] at hq <;>
    simp [outgoing, position, refs, Array.getElem?_append, Heap.items, Heap.entries, Nat.add_assoc,
      hq]

theorem size_outgoing (s : Store) : s.outgoing.size
    = s.layouts.size + s.activations.size + s.callables.size + s.heap.lists.size
      + s.heap.groups.size + s.stables.size + s.caches.size + s.sites.size := by
  simp [outgoing, Nat.add_assoc]

theorem position_lt {s : Store} {q : Ref} (hq : s.Allocated q) :
    s.position q < s.outgoing.size := by
  rw [size_outgoing]
  cases q <;> simp only [Allocated, position] at hq ⊢ <;> omega

/-- Every position is that of an object. -/
theorem exists_position {s : Store} {i : Nat} (hi : i < s.outgoing.size) :
    ∃ q, s.Allocated q ∧ s.position q = i := by
  rw [size_outgoing] at hi
  rcases Nat.lt_or_ge i s.layouts.size with h | h₁
  · exact ⟨.layout ⟨i⟩, h, rfl⟩
  obtain ⟨j, rfl⟩ := Nat.exists_eq_add_of_le h₁
  rcases Nat.lt_or_ge j s.activations.size with h | h₂
  · exact ⟨.activation ⟨j⟩, h, rfl⟩
  obtain ⟨j, rfl⟩ := Nat.exists_eq_add_of_le h₂
  rcases Nat.lt_or_ge j s.callables.size with h | h₃
  · exact ⟨.callable ⟨j⟩, h, by simp only [position]; omega⟩
  obtain ⟨j, rfl⟩ := Nat.exists_eq_add_of_le h₃
  rcases Nat.lt_or_ge j s.heap.lists.size with h | h₄
  · exact ⟨.list ⟨j⟩, h, by simp only [position]; omega⟩
  obtain ⟨j, rfl⟩ := Nat.exists_eq_add_of_le h₄
  rcases Nat.lt_or_ge j s.heap.groups.size with h | h₅
  · exact ⟨.group ⟨j⟩, h, by simp only [position]; omega⟩
  obtain ⟨j, rfl⟩ := Nat.exists_eq_add_of_le h₅
  rcases Nat.lt_or_ge j s.stables.size with h | h₆
  · exact ⟨.stable ⟨j⟩, h, by simp only [position]; omega⟩
  obtain ⟨j, rfl⟩ := Nat.exists_eq_add_of_le h₆
  rcases Nat.lt_or_ge j s.caches.size with h | h₇
  · exact ⟨.cache ⟨j⟩, h, by simp only [position]; omega⟩
  obtain ⟨j, rfl⟩ := Nat.exists_eq_add_of_le h₇
  exact ⟨.site ⟨j⟩, by simp only [Allocated]; omega, by simp only [position]; omega⟩

theorem outgoingPositions_position {s : Store} {q : Ref} (hq : s.Allocated q) :
    s.outgoingPositions[s.position q]?.getD [] = (s.refs q).map s.position := by
  simp [outgoingPositions, outgoing_position hq]

/-- Members of a supported set exist. -/
theorem Supported.allocated {s : Store} {S : Ref → Prop} (hs : s.WellFormed) (hS : s.Supported S)
    {r : Ref} (hr : S r) : s.Allocated r := by
  rcases hS r hr with hroot | ⟨q, -, hin⟩
  · exact hs.roots r hroot
  · exact hs.refs q r hin

/-- Counting positions is counting objects. -/
theorem kept_position_iff {s : Store} (hs : s.WellFormed) {r : Ref} (hr : s.Allocated r) :
    Kept s.outgoingPositions (s.roots.map s.position) (s.position r) ↔ s.Live r := by
  constructor
  · rintro ⟨P, hP, hpr⟩
    refine ⟨fun q => s.Allocated q ∧ P (s.position q), ?_, hr, hpr⟩
    rintro q ⟨hq, hpq⟩
    rcases (hP _ hpq).2 with hroot | ⟨j, hj, hin⟩
    · obtain ⟨q', hq', heq⟩ := List.mem_map.1 hroot
      exact Or.inl (position_injective (hs.roots q' hq') hq heq ▸ hq')
    · obtain ⟨p, hp, rfl⟩ := exists_position (by simpa [outgoingPositions] using (hP j hj).1)
      rw [outgoingPositions_position hp] at hin
      obtain ⟨q', hq', heq⟩ := List.mem_map.1 hin
      exact Or.inr ⟨p, ⟨hp, hj⟩, position_injective (hs.refs p q' hq') hq heq ▸ hq'⟩
  · rintro ⟨S, hS, hSr⟩
    refine ⟨fun i => ∃ q, S q ∧ s.position q = i, ?_, r, hSr, rfl⟩
    rintro _ ⟨q, hq, rfl⟩
    refine ⟨by simpa [outgoingPositions] using position_lt (hS.allocated hs hq), ?_⟩
    rcases hS q hq with hroot | ⟨p, hp, hin⟩
    · exact Or.inl (List.mem_map_of_mem hroot)
    · refine Or.inr ⟨s.position p, ⟨p, hp, rfl⟩, ?_⟩
      rw [outgoingPositions_position (hS.allocated hs hp)]
      exact List.mem_map_of_mem hin

/-- **Counting finds the largest supported set.** -/
theorem contains_iff_live {s : Store} (hs : s.WellFormed) {r : Ref} (hr : s.Allocated r) :
    s.liveSet.contains s r = true ↔ s.Live r :=
  (contains_iff_kept s r).trans (kept_position_iff hs hr)

/-! ## Being alive -/

theorem live_of_mem_roots {s : Store} {r : Ref} (hr : r ∈ s.roots) : s.Live r :=
  ⟨(· ∈ s.roots), fun _ hq => Or.inl hq, hr⟩

/-- What an object alive refers to is alive. -/
theorem Live.of_mem_refs {s : Store} {q r : Ref} (hq : s.Live q) (hr : r ∈ s.refs q) : s.Live r := by
  obtain ⟨S, hS, hSq⟩ := hq
  refine ⟨fun p => p = r ∨ S p, ?_, Or.inl rfl⟩
  rintro p (rfl | hp)
  · exact Or.inr ⟨q, Or.inr hSq, hr⟩
  · exact (hS p hp).imp_right fun ⟨p', hp', hin⟩ => ⟨p', Or.inr hp', hin⟩

theorem Live.allocated {s : Store} (hs : s.WellFormed) {r : Ref} (hr : s.Live r) :
    s.Allocated r := by
  obtain ⟨S, hS, hSr⟩ := hr
  exact hS.allocated hs hSr

/-- The objects alive are a supported set themselves. -/
theorem supported_live (s : Store) : s.Supported s.Live := by
  rintro r ⟨S, hS, hSr⟩
  exact (hS r hSr).imp_right fun ⟨q, hq, hin⟩ => ⟨q, ⟨S, hS, hq⟩, hin⟩

theorem isLive_iff {s : Store} (hs : s.WellFormed) {r : Ref} (hr : s.Allocated r) :
    s.isLive r = true ↔ s.Live r := by
  rw [isLive, Bool.or_eq_true, List.contains_iff_mem, contains_iff_live hs hr,
    or_iff_right_iff_imp]
  exact live_of_mem_roots

/-! ## Leading on -/

/-- What an operation may come to refer to: an object alive before, or one that it makes. -/
def Within (s s' : Store) (r : Ref) : Prop := s.Live r ∨ ¬ s.Allocated r ∧ s'.Allocated r

/-- `s'` may come after `s`: objects stay, and each new reference leads to an object alive before or
    to a new one. -/
structure Leads (s s' : Store) : Prop where
  grows : ∀ r, s.Allocated r → s'.Allocated r
  roots : ∀ r ∈ s'.roots, s.Within s' r
  refs : ∀ q, ∀ r ∈ s'.refs q, r ∈ s.refs q ∨ s.Within s' r
  weak : ∀ l, ∀ r ∈ (s'.layout l).weakRefs, r ∈ (s.layout l).weakRefs ∨ s'.Allocated r

namespace Leads

variable {s s' s'' : Store}

/-- **Nothing dead comes back to life.** -/
theorem live (h : s.Leads s') {r : Ref} (hr : s'.Live r) (hold : s.Allocated r) : s.Live r := by
  refine ⟨fun q => s.Live q ∨ s'.Live q ∧ s.Allocated q, ?_, Or.inr ⟨hr, hold⟩⟩
  have hlive : ∀ q, s.Live q → q ∈ s.roots ∨ ∃ p, (s.Live p ∨ s'.Live p ∧ s.Allocated p) ∧ q ∈ s.refs p :=
    fun q hq => (supported_live s q hq).imp_right fun ⟨p, hp, hin⟩ => ⟨p, Or.inl hp, hin⟩
  rintro q (hq | ⟨hq, halloc⟩)
  · exact hlive q hq
  · have hwithin : s.Within s' q → s.Live q := fun hw => hw.resolve_right fun hn => hn.1 halloc
    rcases supported_live s' q hq with hroot | ⟨p, hp, hin⟩
    · exact hlive q (hwithin (h.roots q hroot))
    · rcases h.refs p q hin with hin | hw
      · by_cases hpa : s.Allocated p
        · exact Or.inr ⟨p, Or.inr ⟨hp, hpa⟩, hin⟩
        · simp [refs_of_not_allocated hpa] at hin
      · exact hlive q (hwithin hw)

theorem allocated_of_within (h : s.Leads s') (hs : s.WellFormed) {r : Ref} (hr : s.Within s' r) :
    s'.Allocated r :=
  hr.elim (fun hl => h.grows r (hl.allocated hs)) And.right

theorem wellFormed (h : s.Leads s') (hs : s.WellFormed) : s'.WellFormed where
  roots r hr := h.allocated_of_within hs (h.roots r hr)
  refs q r hr := (h.refs q r hr).elim (fun hin => h.grows r (hs.refs q r hin))
    (h.allocated_of_within hs)
  weak l r hr := (h.weak l r hr).elim (fun hin => h.grows r (hs.weak l r hin)) id

/-- What is alive afterwards, and is no new object, was alive before. -/
theorem live_before (h : s.Leads s') (hs : s.WellFormed) {r : Ref}
    (hold : s'.Allocated r → s.Allocated r) (hr : s'.Live r) : s.Live r :=
  h.live hr (hold (hr.allocated (h.wellFormed hs)))

theorem refl (s : Store) : s.Leads s where
  grows _ hr := hr
  roots _ hr := Or.inl (live_of_mem_roots hr)
  refs _ _ hr := Or.inl hr
  weak _ _ hr := Or.inl hr

theorem within_trans (hs : s.WellFormed) (h : s.Leads s') (h' : s'.Leads s'') {r : Ref}
    (hr : s'.Within s'' r) : s.Within s'' r := by
  by_cases hold : s.Allocated r
  · rcases hr with hl | ⟨hn, -⟩
    · exact Or.inl (h.live hl hold)
    · exact absurd (h.grows r hold) hn
  · rcases hr with hl | ⟨-, ha⟩
    · exact Or.inr ⟨hold, h'.grows r (hl.allocated (h.wellFormed hs))⟩
    · exact Or.inr ⟨hold, ha⟩

theorem trans (hs : s.WellFormed) (h : s.Leads s') (h' : s'.Leads s'') : s.Leads s'' where
  grows r hr := h'.grows r (h.grows r hr)
  roots r hr := within_trans hs h h' (h'.roots r hr)
  refs q r hr := by
    rcases h'.refs q r hr with hin | hw
    · refine (h.refs q r hin).imp_right fun hw => hw.imp_right fun hn => ⟨hn.1, h'.grows r hn.2⟩
    · exact Or.inr (within_trans hs h h' hw)
  weak l r hr := by
    rcases h'.weak l r hr with hin | ha
    · exact (h.weak l r hin).imp_right (h'.grows r)
    · exact Or.inr ha

end Leads

end Store

end ScopeCall
