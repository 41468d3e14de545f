import Mathlib.Algebra.BigOperators.Group.Finset.Basic
import Mathlib.Algebra.GroupWithZero.Nat
import Mathlib.Algebra.Order.BigOperators.Group.Finset
import ScopeCall.Liveness

/-!
# `ScopeCall.Proofs.Counting` — counting references finds what is alive

`Store.liveSet` lays all tables end to end and works on positions. This module shows that, read as
positions, it finds the largest set in which every member is held from outside or referred to by a
member, whatever the references are.

## Contents
- **The specification.** `Fed` sets of positions, and `Kept`, the largest of them.
- **Counting.** What `tally` and `untally` do to one count.
- **Striking.** `Counted`, the invariant of `strike`: each count is the number of references that come
  from outside or from a position that is not struck yet.
- **The result.** `strike_pos_iff`, and `contains_iff_kept` for the live set of a store.
-/

namespace ScopeCall

namespace Store

/-! ## The specification -/

/-- Every member is a position, and is held from outside or referred to by a member. -/
def Fed (out : Array (List Nat)) (held : List Nat) (P : Nat → Prop) : Prop :=
  ∀ i, P i → i < out.size ∧ (i ∈ held ∨ ∃ j, P j ∧ i ∈ out[j]?.getD [])

/-- Membership in some fed set, hence in the largest. -/
def Kept (out : Array (List Nat)) (held : List Nat) (i : Nat) : Prop :=
  ∃ P, Fed out held P ∧ P i

/-- What is kept stays kept where more is held and referred to. -/
theorem Kept.of_subset {out out' : Array (List Nat)} {held held' : List Nat}
    (hsize : out'.size = out.size) (hheld : ∀ i ∈ held', i ∈ held)
    (hout : ∀ j : Nat, ∀ i ∈ out'[j]?.getD [], i ∈ out[j]?.getD [] ∨ i ∈ held) {i : Nat}
    (h : Kept out' held' i) : Kept out held i := by
  obtain ⟨P, hfed, hi⟩ := h
  refine ⟨P, fun k hk => ?_, hi⟩
  obtain ⟨hlt, hin | ⟨j, hj, hin⟩⟩ := hfed k hk
  · exact ⟨hsize ▸ hlt, Or.inl (hheld k hin)⟩
  · refine ⟨hsize ▸ hlt, ?_⟩
    rcases hout j k hin with hin | hin
    · exact Or.inr ⟨j, hj, hin⟩
    · exact Or.inl hin

/-! ## Counting -/

theorem size_tally (counts : Array Nat) (ps : List Nat) : (tally counts ps).size = counts.size := by
  induction ps generalizing counts with
  | nil => rfl
  | cons p ps ih =>
      rw [tally, List.foldl_cons, ← tally, ih]
      exact Array.size_modify

theorem getElem?_tally (counts : Array Nat) (ps : List Nat) (k : Nat) (hk : k < counts.size) :
    (tally counts ps)[k]?.getD 0 = counts[k]?.getD 0 + ps.count k := by
  induction ps generalizing counts with
  | nil => rfl
  | cons p ps ih =>
      rw [tally, List.foldl_cons, ← tally, ih _ (by simpa using hk), List.count_cons]
      by_cases hp : p = k
      · subst hp
        simp [Array.getElem?_modify, Array.getElem?_eq_getElem hk]
        omega
      · simp [Array.getElem?_modify, hp]

/-- Counting several lists adds up how often a position is in each of them. -/
theorem getElem?_foldl_tally (counts : Array Nat) (rows : List (List Nat)) (k : Nat)
    (hk : k < counts.size) :
    (rows.foldl tally counts)[k]?.getD 0
      = counts[k]?.getD 0 + (rows.map fun ps => ps.count k).sum := by
  induction rows generalizing counts with
  | nil => rfl
  | cons row rows ih =>
      rw [List.foldl_cons, ih _ (by rwa [size_tally]), getElem?_tally _ _ _ hk, List.map_cons,
        List.sum_cons, Nat.add_assoc]

theorem size_foldl_tally (counts : Array Nat) (rows : List (List Nat)) :
    (rows.foldl tally counts).size = counts.size := by
  induction rows generalizing counts with
  | nil => rfl
  | cons row rows ih => rw [List.foldl_cons, ih, size_tally]

/-- One reference to a position less. -/
theorem getElem?_lowered (counts : Array Nat) (p k : Nat) :
    (counts.setIfInBounds p (counts[p]?.getD 0 - 1))[k]?.getD 0
      = counts[k]?.getD 0 - if p = k then 1 else 0 := by
  rw [Array.getElem?_setIfInBounds]
  by_cases hk : p = k
  · subst hk
    by_cases hlt : p < counts.size <;> simp [hlt]
  · simp [hk]

/-- A position out of range counts as one without references. -/
theorem untally_cons (counts : Array Nat) (p : Nat) (ps : List Nat) :
    untally counts (p :: ps)
      = ((untally (counts.setIfInBounds p (counts[p]?.getD 0 - 1)) ps).1,
        if counts[p]?.getD 0 = 1 then p :: (untally (counts.setIfInBounds p (counts[p]?.getD 0 - 1)) ps).2
        else (untally (counts.setIfInBounds p (counts[p]?.getD 0 - 1)) ps).2) := by
  rw [untally]
  cases hp : counts[p]? with
  | none =>
      have hout : counts.setIfInBounds p (0 - 1) = counts :=
        Array.setIfInBounds_eq_of_size_le (Array.getElem?_eq_none_iff.1 hp)
      rw [Option.getD_none, hout, if_neg Nat.zero_ne_one]
  | some n => rfl

theorem size_untally (counts : Array Nat) (ps : List Nat) :
    (untally counts ps).1.size = counts.size := by
  induction ps generalizing counts with
  | nil => rfl
  | cons p ps ih => rw [untally_cons, ih, Array.size_setIfInBounds]

/-- Taking references back lowers each count by their number. -/
theorem getElem?_untally (counts : Array Nat) (ps : List Nat) (k : Nat) :
    (untally counts ps).1[k]?.getD 0 = counts[k]?.getD 0 - ps.count k := by
  induction ps generalizing counts with
  | nil => rfl
  | cons p ps ih =>
      rw [untally_cons, ih, getElem?_lowered, List.count_cons]
      simp only [beq_iff_eq]
      omega

/-- Just the positions whose counts reach zero are struck. -/
theorem mem_untally (counts : Array Nat) (ps : List Nat) (k : Nat) :
    k ∈ (untally counts ps).2 ↔ 0 < counts[k]?.getD 0 ∧ counts[k]?.getD 0 ≤ ps.count k := by
  induction ps generalizing counts with
  | nil =>
      simp only [untally, List.not_mem_nil, List.count_nil, false_iff]
      omega
  | cons p ps ih =>
      have hlater := ih (counts.setIfInBounds p (counts[p]?.getD 0 - 1))
      rw [getElem?_lowered] at hlater
      rw [untally_cons, List.count_cons]
      by_cases hk : p = k
      · subst hk
        rw [if_pos rfl] at hlater
        simp only [beq_self_eq_true, if_true]
        split
        · simp only [List.mem_cons, true_or, true_iff]
          omega
        · rw [hlater]
          omega
      · rw [if_neg hk, Nat.sub_zero] at hlater
        simp only [beq_iff_eq, hk, if_false, Nat.add_zero]
        split <;> simp [hlater, Ne.symm hk]

/-- A position is struck at its last reference, when none that follow can strike it again. -/
theorem nodup_untally (counts : Array Nat) (ps : List Nat) : (untally counts ps).2.Nodup := by
  induction ps generalizing counts with
  | nil => exact List.nodup_nil
  | cons p ps ih =>
      rw [untally_cons]
      dsimp only
      split
      · rename_i hone
        refine List.nodup_cons.2 ⟨fun hin => ?_, ih _⟩
        have hpos := ((mem_untally _ _ _).1 hin).1
        rw [getElem?_lowered, if_pos rfl, hone] at hpos
        exact Nat.lt_irrefl _ hpos
      · exact ih _

/-! ## Striking -/

variable {out : Array (List Nat)} {held : List Nat}

/-- The references to a position from outside and from the positions of a set. -/
def referenceCount (out : Array (List Nat)) (held : List Nat) (alive : Finset Nat) (i : Nat) : Nat :=
  held.count i + ∑ j ∈ alive, (out[j]?.getD []).count i

/-- Leaving out a position takes back the references that it holds. -/
theorem referenceCount_erase {alive : Finset Nat} {j : Nat} (hj : j ∈ alive) (i : Nat) :
    referenceCount out held (alive.erase j) i
      = referenceCount out held alive i - (out[j]?.getD []).count i := by
  have := Finset.sum_erase_add alive (fun j => (out[j]?.getD []).count i) hj
  simp only [referenceCount]
  omega

/-- A position without references from a set that it is fed by is not in the set. -/
theorem not_fed_of_referenceCount_eq_zero {alive : Finset Nat} {P : Nat → Prop}
    (hfed : Fed out held P) (halive : ∀ j, P j → j ∈ alive) {i : Nat}
    (hzero : referenceCount out held alive i = 0) : ¬ P i := by
  intro hi
  simp only [referenceCount, Nat.add_eq_zero_iff, List.count_eq_zero,
    Finset.sum_eq_zero_iff] at hzero
  rcases (hfed i hi).2 with hheld | ⟨j, hj, hin⟩
  · exact hzero.1 hheld
  · exact hzero.2 j (halive j hj) hin

/-- The invariant of striking, `alive` being the positions that are not struck yet. -/
structure Counted (out : Array (List Nat)) (held : List Nat) (alive : Finset Nat)
    (pending : List Nat) (counts : Array Nat) : Prop where
  size : counts.size = out.size
  inside : ∀ j ∈ alive, j < out.size
  nodup : pending.Nodup
  waiting : ∀ i ∈ pending, i ∈ alive
  count : ∀ i < out.size, counts[i]?.getD 0 = referenceCount out held alive i
  zero : ∀ i < out.size, counts[i]?.getD 0 = 0 ↔ i ∈ pending ∨ i ∉ alive
  /-- Nothing that has to be kept is struck, or about to be. -/
  kept : ∀ i, Kept out held i → i ∈ alive ∧ i ∉ pending

/-- What is struck now had references before, so it was neither pending nor struck. -/
theorem Counted.struck {alive : Finset Nat} {pending : List Nat} {counts : Array Nat}
    (h : Counted out held alive pending counts) {ps : List Nat} {k : Nat} (hk : k ∈ (untally counts ps).2) :
    k < out.size ∧ k ∈ alive ∧ k ∉ pending := by
  have hpos := ((mem_untally counts ps k).1 hk).1
  have hlt : k < out.size := by
    by_contra hge
    rw [Array.getElem?_eq_none (by rw [h.size]; omega)] at hpos
    exact Nat.lt_irrefl _ hpos
  have hne := (h.zero k hlt).not.1 (Nat.ne_of_gt hpos)
  exact ⟨hlt, by simpa using fun hc => hne (Or.inr hc), fun hc => hne (Or.inl hc)⟩

/-- Striking one position keeps the invariant. -/
theorem Counted.step {alive : Finset Nat} {i : Nat} {pending : List Nat} {counts : Array Nat}
    (h : Counted out held alive (i :: pending) counts) :
    Counted out held (alive.erase i) ((untally counts (out[i]?.getD [])).2 ++ pending)
      (untally counts (out[i]?.getD [])).1 := by
  have hcount := getElem?_untally counts (out[i]?.getD [])
  have hmem := mem_untally counts (out[i]?.getD [])
  have hnew : ∀ k < out.size, (untally counts (out[i]?.getD [])).1[k]?.getD 0
      = referenceCount out held (alive.erase i) k := by
    intro k hk
    rw [hcount, h.count k hk, referenceCount_erase (h.waiting i List.mem_cons_self)]
  constructor
  case size => exact (size_untally _ _).trans h.size
  case inside => exact fun j hj => h.inside j (Finset.mem_of_mem_erase hj)
  case nodup =>
    refine List.nodup_append.2 ⟨nodup_untally _ _, (List.nodup_cons.1 h.nodup).2, fun a ha b hb hab => ?_⟩
    subst hab
    exact (h.struck ha).2.2 (List.mem_cons_of_mem i hb)
  case waiting =>
    intro k hk
    rcases List.mem_append.1 hk with hk | hk
    · obtain ⟨-, halive, hnot⟩ := h.struck hk
      exact Finset.mem_erase.2 ⟨fun he => hnot (he ▸ List.mem_cons_self), halive⟩
    · exact Finset.mem_erase.2 ⟨fun he => (List.nodup_cons.1 h.nodup).1 (he ▸ hk),
        h.waiting k (List.mem_cons_of_mem i hk)⟩
  case count => exact hnew
  case zero =>
    intro k hk
    have hz := h.zero k hk
    simp only [List.mem_append, Finset.mem_erase, List.mem_cons] at hz ⊢
    by_cases hzero : counts[k]?.getD 0 = 0
    · rcases hz.1 hzero with (rfl | hp) | hd
      · simp [hcount, hzero]
      · simp [hcount, hzero, hp]
      · simp [hcount, hzero, hd]
    · have hpend : ¬ ((k = i ∨ k ∈ pending) ∨ k ∉ alive) := fun hcon => hzero (hz.2 hcon)
      rw [hcount, hmem]
      constructor
      · intro hsub
        exact Or.inl (Or.inl ⟨by omega, by omega⟩)
      · rintro ((⟨-, hle⟩ | hp) | hd)
        · omega
        · exact absurd (Or.inl (Or.inr hp)) hpend
        · exact absurd ⟨fun he => hpend (Or.inl (Or.inl he)),
            by simpa using fun hc => hpend (Or.inr hc)⟩ hd
  case kept =>
    rintro k ⟨P, hfed, hk⟩
    have hsurvive : ∀ j, P j → j ∈ alive.erase i := by
      intro j hj
      obtain ⟨hin, hnot⟩ := h.kept j ⟨P, hfed, hj⟩
      exact Finset.mem_erase.2 ⟨fun he => hnot (he ▸ List.mem_cons_self), hin⟩
    refine ⟨hsurvive k hk, fun hin => ?_⟩
    rcases List.mem_append.1 hin with hin | hin
    · have hnone := hnew k (h.struck hin).1
      rw [hcount, Nat.sub_eq_zero_of_le ((hmem k).1 hin).2] at hnone
      exact not_fed_of_referenceCount_eq_zero hfed hsurvive hnone.symm hk
    · exact (h.kept k ⟨P, hfed, hk⟩).2 (List.mem_cons_of_mem i hin)

/-- With fuel for every position that is left, striking goes on until nothing is pending. -/
theorem Counted.strike {alive : Finset Nat} {pending : List Nat} {counts : Array Nat} {fuel : Nat}
    (h : Counted out held alive pending counts) (hfuel : alive.card ≤ fuel) :
    ∃ alive', Counted out held alive' [] (strike out fuel pending counts) := by
  induction fuel generalizing alive pending counts with
  | zero =>
      cases pending with
      | nil => exact ⟨alive, h⟩
      | cons i pending =>
          have hi := h.waiting i (by simp)
          simp [Finset.card_eq_zero.1 (Nat.le_zero.1 hfuel)] at hi
  | succ fuel ih =>
      cases pending with
      | nil => exact ⟨alive, h⟩
      | cons i pending =>
          have hcard := Finset.card_erase_of_mem (h.waiting i (by simp))
          exact ih h.step (by omega)

/-- When nothing is pending, the positions left are those that have to be kept. -/
theorem Counted.pos_iff {alive : Finset Nat} {counts : Array Nat}
    (h : Counted out held alive [] counts) {i : Nat} : 0 < counts[i]?.getD 0 ↔ Kept out held i := by
  have halive : ∀ j, 0 < counts[j]?.getD 0 ↔ j ∈ alive := by
    intro j
    by_cases hj : j < out.size
    · have := h.zero j hj
      simp only [List.not_mem_nil, false_or] at this
      rw [Nat.pos_iff_ne_zero, ne_eq, this, not_not]
    · rw [Array.getElem?_eq_none (by rw [h.size]; omega)]
      simpa using fun hin => hj (h.inside j hin)
  rw [halive]
  refine ⟨fun hi => ⟨(· ∈ alive), fun j hj => ⟨h.inside j hj, ?_⟩, hi⟩, fun hi => (h.kept i hi).1⟩
  have hpos := (halive j).2 hj
  rw [h.count j (h.inside j hj), referenceCount] at hpos
  by_cases hheld : j ∈ held
  · exact Or.inl hheld
  · rw [List.count_eq_zero.2 hheld, Nat.zero_add] at hpos
    obtain ⟨k, hk, hcount⟩ := Finset.exists_ne_zero_of_sum_ne_zero (Nat.pos_iff_ne_zero.1 hpos)
    exact Or.inr ⟨k, hk, List.count_pos_iff.1 (Nat.pos_iff_ne_zero.2 hcount)⟩

/-! ## The result -/

/-- The counts before anything is struck. -/
def firstCounts (out : Array (List Nat)) (held : List Nat) : Array Nat :=
  out.foldl tally (tally (Array.replicate out.size 0) held)

theorem sum_map_eq_sum_range (rows : List (List Nat)) (f : List Nat → Nat) :
    (rows.map f).sum = ∑ j ∈ Finset.range rows.length, f (rows[j]?.getD []) := by
  induction rows with
  | nil => rfl
  | cons row rows ih =>
      rw [List.length_cons, Finset.sum_range_succ', List.map_cons, List.sum_cons, ih, Nat.add_comm]
      rfl

/-- The first counts take every position for alive. -/
theorem counted_firstCounts :
    Counted out held (Finset.range out.size)
      ((List.range out.size).filter fun i => (firstCounts out held)[i]?.getD 0 = 0)
      (firstCounts out held) := by
  have hsize : (firstCounts out held).size = out.size := by
    rw [firstCounts, ← Array.foldl_toList, size_foldl_tally, size_tally, Array.size_replicate]
  have hcount : ∀ i < out.size, (firstCounts out held)[i]?.getD 0
      = referenceCount out held (Finset.range out.size) i := by
    intro i hi
    rw [firstCounts, ← Array.foldl_toList,
      getElem?_foldl_tally _ _ _ (by simpa [size_tally] using hi),
      getElem?_tally _ _ _ (by simpa using hi), sum_map_eq_sum_range, referenceCount]
    simp [hi]
  refine ⟨hsize, by simp, List.nodup_range.filter _, by simp +contextual, hcount, ?_, ?_⟩
  · intro i hi
    simp [hi]
  · rintro i ⟨P, hfed, hi⟩
    refine ⟨Finset.mem_range.2 (hfed i hi).1, fun hin => ?_⟩
    have hzero : (firstCounts out held)[i]?.getD 0 = 0 := by simpa using (List.mem_filter.1 hin).2
    rw [hcount i (hfed i hi).1] at hzero
    exact not_fed_of_referenceCount_eq_zero hfed
      (fun j hj => Finset.mem_range.2 (hfed j hj).1) hzero hi

/-- After striking, a position has references left just if it has to be kept. -/
theorem strike_pos_iff (i : Nat) :
    0 < (strike out out.size
        ((List.range out.size).filter fun i => (firstCounts out held)[i]?.getD 0 = 0)
        (firstCounts out held))[i]?.getD 0 ↔ Kept out held i := by
  obtain ⟨alive, h⟩ := (@counted_firstCounts out held).strike (Finset.card_range out.size).le
  exact h.pos_iff

/-- The outgoing references of every object, as positions. -/
def outgoingPositions (s : Store) : Array (List Nat) := s.outgoing.map (·.map s.position)

/-- The live set of a store holds the positions that have to be kept. -/
theorem contains_iff_kept (s : Store) (r : Ref) :
    s.liveSet.contains s r = true
      ↔ Kept s.outgoingPositions (s.roots.map s.position) (s.position r) := by
  rw [← strike_pos_iff]
  simp [liveSet, LiveSet.contains, firstCounts, outgoingPositions]

end Store

end ScopeCall
