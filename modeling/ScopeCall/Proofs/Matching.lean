import Mathlib.Data.List.Nodup
import Mathlib.Data.List.Perm.Basic
import Mathlib.Data.List.Zip
import Mathlib.Data.List.Induction
import Mathlib.Data.Option.Basic
import ScopeCall.Matching

/-!
# `ScopeCall.Proofs.Matching` — matching implements its rules

The rules of matching are stated here by themselves: which argument goes to which formal, which ones are
left over, and what every other formal takes. The two passes of `Matching.run` are shown to place
arguments in the order of a list of pairs, which is read against the rules.

## Contents
- **The rules.** `Placed`, `unplaced`, `Repeats` and `Follows`.
- **Placing a list of pairs.** `Progress.placeAll`.
- **The pass over names.** `placeNamed_ok` and `placeNamed_error`.
- **The pass over positions.** `placePositional_eq`.
- **All placements.** Each argument and each formal occurs in at most one of them.
- **The outcome.** `run_implements_rules`.
-/

namespace ScopeCall

/-- The supplied arguments that a formal takes its value from. -/
def FormalSource.positions : FormalSource → List Nat
  | .supplied i   => [i]
  | .collected is => is
  | .defaulted    => []
  | .missing      => []

namespace Matching

section Rules

variable (formals : List Formal) (supplied : SuppliedNames)

/-! ## The rules -/

/-- The formal at position `f` has this name and does not collect leftovers. -/
def Carries (n : Name) (f : Nat) : Prop :=
  (formals[f]?.any fun formal => !formal.isVariadic && formal.name == n) = true

instance (n : Name) : DecidablePred (Carries formals n) :=
  fun _ => inferInstanceAs (Decidable (_ = true))

/-- The formal at position `f` is the last of this name. -/
def Named (n : Name) (f : Nat) : Prop :=
  Carries formals n f ∧ ∀ g < formals.length, f < g → ¬ Carries formals n g

instance (n : Name) : DecidablePred (Named formals n) :=
  fun _ => inferInstanceAs (Decidable (_ ∧ _))

/-- The argument at position `i` is supplied under the name of the formal at position `f`. -/
def Addressed (i f : Nat) : Prop := ∃ n ∈ supplied[i]?.join, Named formals n f

instance (i : Nat) : DecidablePred (Addressed formals supplied i) :=
  fun f => inferInstanceAs (Decidable (∃ n ∈ supplied[i]?.join, Named formals n f))

/-- The positions of the arguments supplied without a name. -/
def positionals : List Nat :=
  (List.range supplied.length).filter fun i => supplied[i]? = some none

/-- The formals before the first collecting one that no argument is addressed to. -/
def openFormals : List Nat :=
  (List.range (formals.findIdx Formal.isVariadic)).filter fun f =>
    ∀ i < supplied.length, ¬ Addressed formals supplied i f

/-- The argument at position `i` goes to the formal at position `f`: by its name, or in order. -/
def Placed (i f : Nat) : Prop :=
  Addressed formals supplied i f
    ∨ (i, f) ∈ (positionals supplied).zip (openFormals formals supplied)

instance (i : Nat) : DecidablePred (Placed formals supplied i) :=
  fun _ => inferInstanceAs (Decidable (_ ∨ _))

/-- The positions of the leftover arguments, ascending. -/
def unplaced : List Nat :=
  (List.range supplied.length).filter fun i =>
    ∀ f < formals.length, ¬ Placed formals supplied i f

/-- The argument at position `j` carries a name that fits a formal, and that an earlier argument
    carries as well. -/
def Repeats (j : Nat) (n : Name) : Prop :=
  (∃ f, Carries formals n f) ∧ supplied[j]? = some (some n) ∧ ∃ i < j, supplied[i]? = some (some n)

/-- The first argument that repeats the name of an earlier one. -/
def FirstRepeat (j : Nat) (n : Name) : Prop :=
  Repeats formals supplied j n ∧ ∀ i < j, ∀ m, ¬ Repeats formals supplied i m

/-- The sources that the rules give to the formals. -/
structure Follows (m : MatchedArguments) : Prop where
  length : m.sources.length = formals.length
  placed : ∀ i f, Placed formals supplied i f → m.sources[f]? = some (.supplied i)
  collects : ∀ f, formals.findIdx? Formal.isVariadic = some f →
    m.sources[f]? = some (.collected (unplaced formals supplied))
  others : ∀ f formal, formals[f]? = some formal → (∀ i, ¬ Placed formals supplied i f) →
    formals.findIdx? Formal.isVariadic ≠ some f →
    m.sources[f]? = some (if formal.default?.isSome then .defaulted else .missing)
  each_once : (m.sources.flatMap FormalSource.positions).Perm (List.range supplied.length)

end Rules

/-! ## Placing a list of pairs -/

namespace Progress

/-- Places arguments at formals, pair by pair. -/
def placeAll (p : Progress) (pairs : List (Nat × Nat)) : Progress :=
  pairs.foldl (fun p (i, f) => p.place f i) p

variable {p : Progress}

theorem size_sources_placeAll (pairs : List (Nat × Nat)) :
    (p.placeAll pairs).sources.size = p.sources.size := by
  induction pairs generalizing p with
  | nil => rfl
  | cons pair pairs ih => exact ih.trans (by simp [place])

theorem size_used_placeAll (pairs : List (Nat × Nat)) :
    (p.placeAll pairs).used.size = p.used.size := by
  induction pairs generalizing p with
  | nil => rfl
  | cons pair pairs ih => exact ih.trans (by simp [place])

/-- A formal that no pair names keeps its source. -/
theorem sources_placeAll_of_notMem {pairs : List (Nat × Nat)} {f : Nat}
    (hf : f ∉ pairs.map Prod.snd) : (p.placeAll pairs).sources[f]? = p.sources[f]? := by
  induction pairs generalizing p with
  | nil => rfl
  | cons pair pairs ih =>
      simp only [List.map_cons, List.mem_cons, not_or] at hf
      refine (ih hf.2).trans ?_
      simp only [place, Array.getElem?_setIfInBounds]
      rw [if_neg fun hc => hf.1 hc.symm]

/-- A formal that one pair names gets the argument of that pair. -/
theorem sources_placeAll_of_mem {pairs : List (Nat × Nat)} {i f : Nat}
    (hnodup : (pairs.map Prod.snd).Nodup) (hf : f < p.sources.size) (hmem : (i, f) ∈ pairs) :
    (p.placeAll pairs).sources[f]? = some (some (.supplied i)) := by
  induction pairs generalizing p with
  | nil => exact absurd hmem List.not_mem_nil
  | cons pair pairs ih =>
      simp only [List.map_cons, List.nodup_cons] at hnodup
      rcases List.mem_cons.1 hmem with rfl | hmem
      · refine (sources_placeAll_of_notMem hnodup.1).trans ?_
        simp [place, hf]
      · exact ih hnodup.2 (by simpa [place] using hf) hmem

theorem used_placeAll (pairs : List (Nat × Nat)) (i : Nat) (hi : i < p.used.size) :
    (p.placeAll pairs).used[i]?.getD false
      = (p.used[i]?.getD false || decide (i ∈ pairs.map Prod.fst)) := by
  induction pairs generalizing p with
  | nil => simp [placeAll]
  | cons pair pairs ih =>
      refine (ih (by simpa [place] using hi)).trans ?_
      simp only [place, Array.getElem?_setIfInBounds, List.map_cons, List.mem_cons]
      by_cases h : pair.1 = i
      · simp [h, hi]
      · simp [h, Ne.symm h]

theorem filled_placeAll (pairs : List (Nat × Nat)) {f : Nat} (hf : f < p.sources.size) :
    (p.placeAll pairs).filled f = (p.filled f || decide (f ∈ pairs.map Prod.snd)) := by
  induction pairs generalizing p with
  | nil => simp [placeAll]
  | cons pair pairs ih =>
      refine (ih (by simpa [place] using hf)).trans ?_
      simp only [filled, place, Array.getElem?_setIfInBounds, List.map_cons, List.mem_cons]
      by_cases h : pair.2 = f
      · simp [h, hf]
      · simp [h, Ne.symm h]

end Progress

variable {formals : List Formal} {supplied : SuppliedNames}

/-! ## The pass over names -/

theorem Carries.lt_length {n : Name} {f : Nat} (h : Carries formals n f) : f < formals.length := by
  by_contra hf
  simp [Carries, List.getElem?_eq_none (Nat.le_of_not_lt hf)] at h

/-- A formal carries one name only. -/
theorem Carries.eq {n m : Name} {f : Nat} (hn : Carries formals n f) (hm : Carries formals m f) :
    n = m := by
  cases hf : formals[f]? with
  | none => simp [Carries, hf] at hn
  | some formal =>
      simp only [Carries, hf, Option.any_some, Bool.and_eq_true, beq_iff_eq] at hn hm
      exact hn.2.symm.trans hm.2

theorem Named.eq {n : Name} {f g : Nat} (hf : Named formals n f) (hg : Named formals n g) :
    f = g := by
  rcases Nat.lt_trichotomy f g with h | h | h
  · exact absurd hg.1 (hf.2 g hg.1.lt_length h)
  · exact h
  · exact absurd hf.1 (hg.2 f hf.1.lt_length h)

/-- The search for a formal by name finds the last one. -/
theorem formalNamed?_eq_some {n : Name} {f : Nat} :
    formalNamed? formals n = some f ↔ Named formals n f := by
  induction formals using List.reverseRecOn with
  | nil => simp [formalNamed?, Named, Carries]
  | append_singleton formals last ih =>
      have hcarries : ∀ g < formals.length,
          Carries (formals ++ [last]) n g ↔ Carries formals n g := by
        intro g hg
        rw [Carries, Carries, List.getElem?_append_left hg]
      have hlast : Carries (formals ++ [last]) n formals.length
          ↔ (!last.isVariadic && last.name == n) = true := by
        simp [Carries]
      simp only [formalNamed?, List.zipIdx_append, List.zipIdx_singleton, List.filter_append,
        List.filter_singleton, Nat.zero_add, Option.map_eq_some_iff, List.getLast?_append]
      by_cases hc : (!last.isVariadic && last.name == n) = true
      · simp only [hc, cond_true, List.getLast?_singleton, Option.some_or, Option.some.injEq,
          exists_eq_left']
        constructor
        · rintro rfl
          refine ⟨hlast.2 hc, fun g hg hlt => ?_⟩
          simp only [List.length_append, List.length_singleton] at hg
          omega
        · intro h
          by_contra hne
          have hlt := h.1.lt_length
          simp only [List.length_append, List.length_singleton] at hlt
          exact h.2 formals.length (by simp) (by omega) (hlast.2 hc)
      · simp only [hc, cond_false, List.getLast?_nil, Option.none_or]
        rw [← Option.map_eq_some_iff]
        refine ih.trans ?_
        constructor
        · intro h
          refine ⟨(hcarries f h.1.lt_length).2 h.1, fun g hg hlt hcg => ?_⟩
          simp only [List.length_append, List.length_singleton] at hg
          rcases Nat.lt_or_ge g formals.length with hg' | hg'
          · exact h.2 g hg' hlt ((hcarries g hg').1 hcg)
          · obtain rfl : g = formals.length := by omega
            exact hc (hlast.1 hcg)
        · intro h
          have hlt := h.1.lt_length
          simp only [List.length_append, List.length_singleton] at hlt
          have hf : f < formals.length := by
            by_contra hge
            obtain rfl : f = formals.length := by omega
            exact hc (hlast.1 h.1)
          refine ⟨(hcarries f hf).1 h.1, fun g hg hfg hcg => ?_⟩
          exact h.2 g (by simp; omega) hfg ((hcarries g hg).2 hcg)

/-- Some formal carries the name exactly when one is the last to do so. -/
theorem exists_named_iff {n : Name} :
    (∃ f, Named formals n f) ↔ ∃ f, Carries formals n f := by
  refine ⟨fun ⟨f, hf⟩ => ⟨f, hf.1⟩, fun ⟨f, hf⟩ => ?_⟩
  cases hn : formalNamed? formals n with
  | some g => exact ⟨g, formalNamed?_eq_some.1 hn⟩
  | none =>
      exfalso
      simp only [formalNamed?, Option.map_eq_none_iff, List.getLast?_eq_none_iff,
        List.filter_eq_nil_iff, List.mem_zipIdx_iff_getElem?, Prod.forall] at hn
      have hlt := hf.lt_length
      refine hn formals[f] f (by simp [hlt]) ?_
      simpa [Carries, hlt] using hf

/-- The arguments supplied by name, from position `i` on, each with its formal. -/
def byName (formals : List Formal) (i : Nat) (rest : SuppliedNames) : List (Nat × Nat) :=
  (rest.zipIdx i).filterMap fun (name, j) =>
    (name.bind (formalNamed? formals)).map fun f => (j, f)

theorem byName_cons (i : Nat) (name : Option Name) (rest : SuppliedNames) :
    byName formals i (name :: rest)
      = ((name.bind (formalNamed? formals)).map fun f => (i, f)).toList
        ++ byName formals (i + 1) rest := by
  rw [byName, List.zipIdx_cons, List.filterMap_cons]
  dsimp only
  cases name.bind (formalNamed? formals) <;> rfl

theorem mem_byName {i f : Nat} :
    (i, f) ∈ byName formals 0 supplied ↔ Addressed formals supplied i f := by
  simp only [byName, List.mem_filterMap, List.mem_zipIdx_iff_getElem?, Option.map_eq_some_iff,
    Prod.exists, Prod.mk.injEq, Addressed, Option.mem_def]
  constructor
  · rintro ⟨name, j, hj, g, hg, rfl, rfl⟩
    obtain ⟨n, rfl, hn⟩ := Option.bind_eq_some_iff.1 hg
    exact ⟨n, by simp [hj], formalNamed?_eq_some.1 hn⟩
  · rintro ⟨n, hn, hf⟩
    exact ⟨some n, i, Option.join_eq_some_iff.1 hn, f, by simp [formalNamed?_eq_some.2 hf], rfl,
      rfl⟩

/-- As long as no name is repeated, the pass over names places each argument at its formal. -/
theorem placeNamed_append (spell : Name → String) {i : Nat} {pre : SuppliedNames}
    (rest : SuppliedNames) {p : Progress} (hsize : p.sources.size = formals.length)
    (hnodup : ((byName formals i pre).map Prod.snd).Nodup)
    (hopen : ∀ f ∈ (byName formals i pre).map Prod.snd, p.filled f = false) :
    placeNamed spell formals i (pre ++ rest) p
      = placeNamed spell formals (i + pre.length) rest (p.placeAll (byName formals i pre)) := by
  induction pre generalizing i p with
  | nil => rfl
  | cons name pre ih =>
      rw [byName_cons] at hnodup hopen ⊢
      rw [List.length_cons, Nat.add_comm pre.length, ← Nat.add_assoc]
      cases name with
      | none => exact ih hsize hnodup hopen
      | some n =>
          rw [List.cons_append, placeNamed]
          cases hf : formalNamed? formals n with
          | none =>
              simp only [hf, Option.bind_some, Option.map_none, Option.toList_none,
                List.nil_append] at hnodup hopen ⊢
              exact ih hsize hnodup hopen
          | some f =>
              simp only [hf, Option.bind_some, Option.map_some, Option.toList_some,
                List.singleton_append, List.map_cons, List.nodup_cons, List.mem_cons,
                forall_eq_or_imp] at hnodup hopen ⊢
              have hlt : f < p.sources.size := by
                rw [hsize]
                exact (formalNamed?_eq_some.1 hf).1.lt_length
              simp only [hopen.1]
              refine ih (by simpa [Progress.place] using hsize) hnodup.2 fun g hg => ?_
              have hne : f ≠ g := fun hc => hnodup.1 (hc ▸ hg)
              have := hopen.2 g hg
              simpa [Progress.filled, Progress.place, hne] using this

/-- If no name is repeated, no two arguments go to one formal. -/
theorem nodup_byName (h : ∀ j n, ¬ Repeats formals supplied j n) :
    ((byName formals 0 supplied).map Prod.snd).Nodup := by
  rw [List.Nodup, List.pairwise_map, byName, List.pairwise_filterMap, List.pairwise_iff_getElem]
  intro i j hi hj hlt pair hpair pair' hpair' heq
  simp only [List.getElem_zipIdx, Option.map_eq_some_iff, Nat.zero_add] at hpair hpair'
  obtain ⟨f, hf, rfl⟩ := hpair
  obtain ⟨g, hg, rfl⟩ := hpair'
  obtain ⟨n, hn, hnf⟩ := Option.bind_eq_some_iff.1 hf
  obtain ⟨m, hm, hmg⟩ := Option.bind_eq_some_iff.1 hg
  obtain rfl : f = g := heq
  have hcn := (formalNamed?_eq_some.1 hnf).1
  obtain rfl := hcn.eq (formalNamed?_eq_some.1 hmg).1
  simp only [List.length_zipIdx] at hi hj
  refine h j n ⟨⟨f, hcn⟩, ?_, i, hlt, ?_⟩
  · rw [List.getElem?_eq_getElem hj, hm]
  · rw [List.getElem?_eq_getElem hi, hn]

@[simp]
theorem filled_start (m k f : Nat) : (Progress.start m k).filled f = false := by
  simp only [Progress.filled, Progress.start, Array.getElem?_replicate]
  split <;> rfl

theorem placeNamed_ok (spell : Name → String) (h : ∀ j n, ¬ Repeats formals supplied j n) :
    placeNamed spell formals 0 supplied (.start formals.length supplied.length)
      = .ok ((Progress.start formals.length supplied.length).placeAll
          (byName formals 0 supplied)) := by
  have := placeNamed_append spell []
    (p := .start formals.length supplied.length) (by simp [Progress.start])
    (nodup_byName h) (fun f _ => filled_start _ _ f)
  simpa [placeNamed] using this

/-- The pass over names fails at the first repeated name. -/
theorem placeNamed_error (spell : Name → String) {j : Nat} {n : Name}
    (h : FirstRepeat formals supplied j n) :
    placeNamed spell formals 0 supplied (.start formals.length supplied.length)
      = .error (.duplicateArgument (spell n)) := by
  obtain ⟨⟨hcarried, hj, i, hij, hi⟩, hfirst⟩ := h
  obtain ⟨f, hf⟩ := exists_named_iff.2 hcarried
  have hlt : j < supplied.length := (List.getElem?_eq_some_iff.1 hj).1
  have htake : ∀ k m, (supplied.take j)[k]? = some m → k < j ∧ supplied[k]? = some m := by
    intro k m hk
    rw [List.getElem?_take] at hk
    split at hk
    · rename_i hkj
      exact ⟨hkj, hk⟩
    · exact absurd hk (by simp)
  have hnone : ∀ k m, ¬ Repeats formals (supplied.take j) k m := by
    rintro k m ⟨hc, hk, k', hk', hm⟩
    exact hfirst k (htake k _ hk).1 m ⟨hc, (htake k _ hk).2, k', hk', (htake k' _ hm).2⟩
  have hsplit : supplied = supplied.take j ++ some n :: supplied.drop (j + 1) := by
    rw [← (List.getElem?_eq_some_iff.1 hj).2, List.getElem_cons_drop, List.take_append_drop]
  have hstep := placeNamed_append spell (some n :: supplied.drop (j + 1))
    (p := .start formals.length supplied.length) (by simp [Progress.start])
    (nodup_byName hnone) (fun f _ => filled_start _ _ f)
  rw [← hsplit] at hstep
  have hmem : f ∈ (byName formals 0 (supplied.take j)).map Prod.snd := by
    refine List.mem_map.2 ⟨(i, f), mem_byName.2 ⟨n, ?_, hf⟩, rfl⟩
    simp [hij, hi]
  rw [hstep, placeNamed, formalNamed?_eq_some.2 hf]
  have hfill : ((Progress.start formals.length supplied.length).placeAll
      (byName formals 0 (supplied.take j))).filled f = true := by
    rw [Progress.filled_placeAll _ (by simpa [Progress.start] using hf.1.lt_length)]
    simp [hmem]
  simp [hfill]

/-! ## The pass over positions -/

/-- The formals from `next` on and before `stop` that have no source yet. -/
def Progress.openFrom (p : Progress) (next stop : Nat) : List Nat :=
  (List.range' next (stop - next)).filter (!p.filled ·)

theorem Progress.nextOpen_eq (p : Progress) (next stop : Nat) :
    p.nextOpen next stop = (p.openFrom next stop).head?.getD stop := by
  rw [Progress.nextOpen, Progress.openFrom, List.head?_filter]

/-- After the first open formal has been filled, the others are open still. -/
theorem Progress.openFrom_place {p : Progress} {next stop f i : Nat} {rest : List Nat}
    (h : p.openFrom next stop = f :: rest) :
    f < stop ∧ (p.place f i).openFrom (f + 1) stop = rest := by
  obtain ⟨before, after, hrange, -, -, rfl⟩ := List.filter_eq_cons_iff.1 h
  obtain ⟨k, hk, rfl, hafter⟩ := List.range'_eq_append_iff.1 hrange
  obtain ⟨hf, hpos, rfl⟩ := List.range'_eq_cons_iff.1 hafter.symm
  have hlen : stop - (f + 1) = stop - next - k - 1 := by omega
  refine ⟨by omega, ?_⟩
  rw [Progress.openFrom, hlen]
  refine List.filter_congr fun g hg => ?_
  have hne : f ≠ g := by
    have := (List.mem_range'_1.1 hg).1
    omega
  simp [Progress.filled, Progress.place, hne]

/-- The pass over positions pairs the arguments without a name with the open formals, in order. -/
theorem placePositional_eq (supplied : SuppliedNames) (stop i next : Nat) (p : Progress) :
    placePositional stop i (supplied.drop i) next p
      = p.placeAll (((List.range' i (supplied.length - i)).filter
          fun j => supplied[j]? = some none).zip (p.openFrom next stop)) := by
  induction hk : supplied.length - i generalizing i next p with
  | zero => simp [List.drop_eq_nil_of_le (Nat.sub_eq_zero_iff_le.1 hk), placePositional,
      Progress.placeAll]
  | succ k ih =>
      have hi : i < supplied.length := by omega
      have ih := fun next p => ih (i + 1) next p (by omega)
      rw [List.drop_eq_getElem_cons hi, List.range'_succ, List.filter_cons,
        List.getElem?_eq_getElem hi]
      cases hname : supplied[i] with
      | some n => simpa [placePositional] using ih next p
      | none =>
          rw [placePositional, Progress.nextOpen_eq]
          cases hopen : p.openFrom next stop with
          | nil => simp [Progress.placeAll]
          | cons f rest =>
              obtain ⟨hf, hrest⟩ := Progress.openFrom_place (i := i) hopen
              simp only [List.head?_cons, Option.getD_some, Nat.ne_of_lt hf, if_false, decide_true,
                if_true, List.zip_cons_cons]
              rw [ih, hrest]
              rfl

/-! ## All placements -/

theorem map_fst_zip_sublist (xs ys : List Nat) : ((xs.zip ys).map Prod.fst).Sublist xs := by
  induction xs generalizing ys with
  | nil => simp
  | cons x xs ih =>
      cases ys with
      | nil => simp
      | cons y ys => exact (ih ys).cons_cons x

theorem map_snd_zip_sublist (xs ys : List Nat) : ((xs.zip ys).map Prod.snd).Sublist ys := by
  rw [← List.zip_swap, List.map_map]
  exact map_fst_zip_sublist ys xs

/-- All placements of arguments at formals: those by name, then those in order. -/
def placements (formals : List Formal) (supplied : SuppliedNames) : List (Nat × Nat) :=
  byName formals 0 supplied ++ (positionals supplied).zip (openFormals formals supplied)

theorem mem_placements {i f : Nat} :
    (i, f) ∈ placements formals supplied ↔ Placed formals supplied i f := by
  rw [placements, List.mem_append, mem_byName, Placed]

theorem Addressed.lt_length {i f : Nat} (h : Addressed formals supplied i f) :
    i < supplied.length := by
  obtain ⟨n, hn, -⟩ := h
  exact (List.getElem?_eq_some_iff.1 (Option.join_eq_some_iff.1 hn)).1

theorem mem_openFormals {f : Nat} : f ∈ openFormals formals supplied
    ↔ f < formals.findIdx Formal.isVariadic ∧ ∀ i, ¬ Addressed formals supplied i f := by
  simp only [openFormals, List.mem_filter, List.mem_range, decide_eq_true_eq]
  exact and_congr_right fun _ =>
    ⟨fun h i ha => h i ha.lt_length ha, fun h i _ => h i⟩

theorem mem_positionals {i : Nat} :
    i ∈ positionals supplied ↔ i < supplied.length ∧ supplied[i]? = some none := by
  simp [positionals]

theorem Placed.lt_length {i f : Nat} (h : Placed formals supplied i f) : i < supplied.length := by
  rcases h with h | h
  · exact h.lt_length
  · exact (mem_positionals.1 (List.of_mem_zip h).1).1

theorem Placed.lt_formals {i f : Nat} (h : Placed formals supplied i f) : f < formals.length := by
  rcases h with ⟨n, -, hn⟩ | h
  · exact hn.1.lt_length
  · exact Nat.lt_of_lt_of_le (mem_openFormals.1 (List.of_mem_zip h).2).1 List.findIdx_le_length

/-- No argument is placed at a collecting formal. -/
theorem Placed.not_variadic {i f : Nat} {formal : Formal} (h : Placed formals supplied i f)
    (hf : formals[f]? = some formal) : formal.isVariadic = false := by
  rcases h with ⟨n, -, hn, -⟩ | h
  · simp only [Carries, hf, Option.any_some, Bool.and_eq_true, Bool.not_eq_true'] at hn
    exact hn.1
  · have hlt := (mem_openFormals.1 (List.of_mem_zip h).2).1
    obtain ⟨hlen, rfl⟩ := List.getElem?_eq_some_iff.1 hf
    simpa using List.not_of_lt_findIdx hlt

theorem nodup_placements (h : ∀ j n, ¬ Repeats formals supplied j n) :
    ((placements formals supplied).map Prod.snd).Nodup := by
  rw [placements, List.map_append, List.nodup_append']
  refine ⟨nodup_byName h, ?_, ?_⟩
  · have hopen : (openFormals formals supplied).Nodup := List.nodup_range.filter _
    exact hopen.sublist (map_snd_zip_sublist _ _)
  · intro f hf hf'
    obtain ⟨⟨i, f⟩, hi, rfl⟩ := List.mem_map.1 hf
    obtain ⟨⟨j, f'⟩, hj, rfl⟩ := List.mem_map.1 hf'
    exact (mem_openFormals.1 (List.of_mem_zip hj).2).2 i (mem_byName.1 hi)

/-- No argument is placed at two formals. -/
theorem Placed.formal_unique {i f g : Nat} (hf : Placed formals supplied i f)
    (hg : Placed formals supplied i g) : f = g := by
  have hnamed : ∀ {f g}, Addressed formals supplied i f →
      (i, g) ∉ (positionals supplied).zip (openFormals formals supplied) := by
    rintro f g ⟨n, hn, -⟩ hz
    have := (mem_positionals.1 (List.of_mem_zip hz).1).2
    simp [this] at hn
  rcases hf with ⟨n, hn, hf⟩ | hf <;> rcases hg with hg | hg
  · obtain ⟨m, hm, hg⟩ := hg
    obtain rfl := Option.mem_unique hn hm
    exact hf.eq hg
  · exact absurd hg (hnamed ⟨n, hn, hf⟩)
  · exact absurd hf (hnamed hg)
  · have hnodup : (positionals supplied).Nodup := List.nodup_range.filter _
    have hfst : (((positionals supplied).zip (openFormals formals supplied)).map Prod.fst).Nodup :=
      hnodup.sublist (map_fst_zip_sublist _ _)
    exact congrArg Prod.snd (List.inj_on_of_nodup_map hfst hf hg rfl)

/-! ## The outcome -/

theorem mem_unplaced {i : Nat} : i ∈ unplaced formals supplied
    ↔ i < supplied.length ∧ ∀ f, ¬ Placed formals supplied i f := by
  simp only [unplaced, List.mem_filter, List.mem_range, decide_eq_true_eq]
  exact and_congr_right fun _ => ⟨fun h f hf => h f hf.lt_formals hf, fun h f _ => h f⟩

/-- How far a match has come after both passes. -/
def placedAll (formals : List Formal) (supplied : SuppliedNames) : Progress :=
  (Progress.start formals.length supplied.length).placeAll (placements formals supplied)

/-- Without repeated names, both passes together place every argument as the rules say. -/
theorem placePositional_placeNamed :
    placePositional ((formals.findIdx? Formal.isVariadic).getD formals.length) 0 supplied 0
        ((Progress.start formals.length supplied.length).placeAll (byName formals 0 supplied))
      = placedAll formals supplied := by
  have hstop : (formals.findIdx? Formal.isVariadic).getD formals.length
      = formals.findIdx Formal.isVariadic := List.findIdx_eq_getD_findIdx?.symm
  have hopen : ((Progress.start formals.length supplied.length).placeAll
        (byName formals 0 supplied)).openFrom 0 (formals.findIdx Formal.isVariadic)
      = openFormals formals supplied := by
    rw [Progress.openFrom, openFormals, Nat.sub_zero, ← List.range_eq_range']
    refine List.filter_congr fun f hf => ?_
    have hlt := Nat.lt_of_lt_of_le (List.mem_range.1 hf)
      (@List.findIdx_le_length _ Formal.isVariadic formals)
    rw [Progress.filled_placeAll _ (by simpa [Progress.start] using hlt), filled_start,
      Bool.false_or, Bool.eq_iff_iff]
    simp only [Bool.not_eq_true', decide_eq_false_iff_not, decide_eq_true_eq, List.mem_map,
      Prod.exists, exists_eq_right, mem_byName]
    exact ⟨fun h i _ hi => h ⟨i, hi⟩, fun h ⟨i, hi⟩ => h i hi.lt_length hi⟩
  have h := placePositional_eq supplied (formals.findIdx Formal.isVariadic) 0 0
    ((Progress.start formals.length supplied.length).placeAll (byName formals 0 supplied))
  rw [List.drop_zero, hopen, Nat.sub_zero, ← List.range_eq_range'] at h
  rw [hstop, h, placedAll, placements, Progress.placeAll, Progress.placeAll, Progress.placeAll,
    List.foldl_append]
  rfl

theorem leftovers_placedAll : leftovers (placedAll formals supplied) = unplaced formals supplied := by
  have hsize : (placedAll formals supplied).used.size = supplied.length := by
    simp [placedAll, Progress.size_used_placeAll, Progress.start]
  rw [leftovers, unplaced, hsize]
  refine List.filter_congr fun i hi => ?_
  have hlt : i < (Progress.start formals.length supplied.length).used.size := by
    simpa [Progress.start] using hi
  have hstart : (Progress.start formals.length supplied.length).used[i]?.getD false = false := by
    simp only [Progress.start, Array.getElem?_replicate]
    split <;> rfl
  rw [placedAll, Progress.used_placeAll _ _ hlt, hstart, Bool.false_or, decide_eq_decide]
  simp only [decide_eq_false_iff_not, List.mem_map, Prod.exists, exists_and_right, exists_eq_right,
    mem_placements, not_exists]
  exact ⟨fun h f _ => h f, fun h f hf => h f hf.lt_formals hf⟩

/-- The sources found by both passes. -/
theorem sources_placedAll (h : ∀ j n, ¬ Repeats formals supplied j n) {f : Nat}
    (hf : f < formals.length) :
    (∀ i, Placed formals supplied i f →
        (placedAll formals supplied).sources[f]? = some (some (.supplied i)))
      ∧ ((∀ i, ¬ Placed formals supplied i f) →
        (placedAll formals supplied).sources[f]? = some none) := by
  constructor
  · intro i hi
    exact Progress.sources_placeAll_of_mem (nodup_placements h) (by simpa [Progress.start] using hf)
      (mem_placements.2 hi)
  · intro hnone
    have hnotMem : f ∉ (placements formals supplied).map Prod.snd := by
      simp only [List.mem_map, Prod.exists, exists_eq_right, mem_placements, not_exists]
      exact hnone
    refine (Progress.sources_placeAll_of_notMem hnotMem).trans ?_
    simp [Progress.start, hf]

/-- Sources that put every placed argument in its place and collect the rest use each argument once. -/
theorem positions_perm {sources : List FormalSource}
    (hrest : formals.findIdx? Formal.isVariadic = none → unplaced formals supplied = [])
    (hplaced : ∀ i f, Placed formals supplied i f → sources[f]? = some (.supplied i))
    (hcollects : ∀ f, formals.findIdx? Formal.isVariadic = some f →
      sources[f]? = some (.collected (unplaced formals supplied)))
    (hothers : ∀ f source, sources[f]? = some source → (∀ i, ¬ Placed formals supplied i f) →
      formals.findIdx? Formal.isVariadic ≠ some f → source.positions = []) :
    (sources.flatMap FormalSource.positions).Perm (List.range supplied.length) := by
  have hmem : ∀ i f source, sources[f]? = some source → i ∈ source.positions →
      Placed formals supplied i f
        ∨ formals.findIdx? Formal.isVariadic = some f ∧ i ∈ unplaced formals supplied := by
    intro i f source hsource hi
    by_cases hex : ∃ j, Placed formals supplied j f
    · obtain ⟨j, hj⟩ := hex
      obtain rfl : source = .supplied j := Option.some.inj (hsource.symm.trans (hplaced j f hj))
      obtain rfl : i = j := by simpa [FormalSource.positions] using hi
      exact Or.inl hj
    · by_cases hc : formals.findIdx? Formal.isVariadic = some f
      · obtain rfl := Option.some.inj (hsource.symm.trans (hcollects f hc))
        exact Or.inr ⟨hc, hi⟩
      · rw [hothers f source hsource (not_exists.1 hex) hc] at hi
        exact absurd hi List.not_mem_nil
  refine (List.perm_ext_iff_of_nodup ?_ List.nodup_range).2 fun i => ?_
  · refine List.nodup_flatMap.2 ⟨fun source hsource => ?_, ?_⟩
    · obtain ⟨f, hf⟩ := List.mem_iff_getElem?.1 hsource
      cases source with
      | collected is =>
          by_cases hex : ∃ j, Placed formals supplied j f
          · obtain ⟨j, hj⟩ := hex
            exact absurd (hf.symm.trans (hplaced j f hj)) (by simp)
          · by_cases hc : formals.findIdx? Formal.isVariadic = some f
            · obtain ⟨rfl⟩ : is = unplaced formals supplied := by
                simpa using hf.symm.trans (hcollects f hc)
              exact List.nodup_range.filter _
            · rw [hothers f _ hf (not_exists.1 hex) hc]
              exact List.nodup_nil
      | _ => simp [FormalSource.positions]
    · rw [List.pairwise_iff_getElem]
      intro f g hf hg hlt i hif hig
      rcases hmem i f _ (List.getElem?_eq_getElem hf) hif with hpf | ⟨hcf, huf⟩ <;>
        rcases hmem i g _ (List.getElem?_eq_getElem hg) hig with hpg | ⟨hcg, hug⟩
      · exact absurd (hpf.formal_unique hpg) (by omega)
      · exact (mem_unplaced.1 hug).2 f hpf
      · exact (mem_unplaced.1 huf).2 g hpg
      · exact absurd (Option.some.inj (hcf.symm.trans hcg)) (by omega)
  · rw [List.mem_flatMap, List.mem_range]
    constructor
    · rintro ⟨source, hsource, hi⟩
      obtain ⟨f, hf⟩ := List.mem_iff_getElem?.1 hsource
      rcases hmem i f source hf hi with hp | ⟨-, hu⟩
      · exact hp.lt_length
      · exact (mem_unplaced.1 hu).1
    · intro hi
      by_cases hex : ∃ f, Placed formals supplied i f
      · obtain ⟨f, hf⟩ := hex
        exact ⟨_, List.mem_of_getElem? (hplaced i f hf), List.mem_singleton_self i⟩
      · have hu := mem_unplaced.2 ⟨hi, not_exists.1 hex⟩
        cases hc : formals.findIdx? Formal.isVariadic with
        | none =>
            rw [hrest hc] at hu
            exact absurd hu List.not_mem_nil
        | some f => exact ⟨_, List.mem_of_getElem? (hcollects f hc), hu⟩

/-- The outcome that a table of sources stands for. -/
def outcome (formals : List Formal) (sources : Array (Option FormalSource)) (allowReorder : Bool) :
    MatchedArguments where
  sources := (sources.toList.zip formals).map fun (source, f) => source.getD (unsupplied f)
  allowsReorder := allowReorder

theorem outcome_getElem? {sources : Array (Option FormalSource)} {allowReorder : Bool} {f : Nat}
    {source : Option FormalSource} {formal : Formal} (hs : sources[f]? = some source)
    (hf : formals[f]? = some formal) :
    (outcome formals sources allowReorder).sources[f]? = some (source.getD (unsupplied formal)) := by
  have hzip : (sources.toList.zip formals)[f]? = some (source, formal) :=
    List.getElem?_zip_eq_some.2 ⟨by simpa using hs, hf⟩
  simp [outcome, hzip]

/-- Tables that hold the placed arguments, and the leftovers where they are collected, follow the
    rules. -/
theorem follows_outcome {sources : Array (Option FormalSource)} {allowReorder : Bool}
    (h : ∀ j n, ¬ Repeats formals supplied j n)
    (hrest : formals.findIdx? Formal.isVariadic = none → unplaced formals supplied = [])
    (hsize : sources.size = formals.length)
    (hcollects : ∀ f, formals.findIdx? Formal.isVariadic = some f →
      sources[f]? = some (some (.collected (unplaced formals supplied))))
    (hkept : ∀ f, formals.findIdx? Formal.isVariadic ≠ some f →
      sources[f]? = (placedAll formals supplied).sources[f]?) :
    Follows formals supplied (outcome formals sources allowReorder) := by
  have hvariadic : ∀ f, formals.findIdx? Formal.isVariadic = some f →
      ∃ formal, formals[f]? = some formal ∧ formal.isVariadic = true := by
    intro f hf
    obtain ⟨hlt, hv, -⟩ := List.findIdx?_eq_some_iff_getElem.1 hf
    exact ⟨formals[f], List.getElem?_eq_getElem hlt, hv⟩
  have hplaced : ∀ i f, Placed formals supplied i f →
      (outcome formals sources allowReorder).sources[f]? = some (.supplied i) := by
    intro i f hi
    have hformal := List.getElem?_eq_getElem hi.lt_formals
    have hne : formals.findIdx? Formal.isVariadic ≠ some f := by
      intro hc
      obtain ⟨formal, hf, hv⟩ := hvariadic f hc
      rw [hi.not_variadic hf] at hv
      exact Bool.false_ne_true hv
    have hs := (hkept f hne).trans ((sources_placedAll h hi.lt_formals).1 i hi)
    exact outcome_getElem? hs hformal
  have hcollected : ∀ f, formals.findIdx? Formal.isVariadic = some f →
      (outcome formals sources allowReorder).sources[f]?
        = some (.collected (unplaced formals supplied)) := by
    intro f hf
    obtain ⟨formal, hformal, -⟩ := hvariadic f hf
    exact outcome_getElem? (hcollects f hf) hformal
  have hothers : ∀ f formal, formals[f]? = some formal →
      (∀ i, ¬ Placed formals supplied i f) → formals.findIdx? Formal.isVariadic ≠ some f →
      (outcome formals sources allowReorder).sources[f]? = some (unsupplied formal) := by
    intro f formal hformal hnone hne
    have hlt := (List.getElem?_eq_some_iff.1 hformal).1
    exact outcome_getElem? ((hkept f hne).trans ((sources_placedAll h hlt).2 hnone)) hformal
  have hlength : (outcome formals sources allowReorder).sources.length = formals.length := by
    simp [outcome, hsize]
  refine ⟨hlength, hplaced, hcollected, hothers, ?_⟩
  refine positions_perm hrest hplaced hcollected fun f source hsource hnone hne => ?_
  have hlt : f < formals.length := hlength ▸ (List.getElem?_eq_some_iff.1 hsource).1
  have := hsource.symm.trans (hothers f _ (List.getElem?_eq_getElem hlt) hnone hne)
  obtain rfl := Option.some.inj this
  rw [unsupplied]
  split <;> rfl

variable {spell : Name → String} {callee : String} {allowReorder : Bool}

theorem size_placedAll : (placedAll formals supplied).sources.size = formals.length := by
  simp [placedAll, Progress.size_sources_placeAll, Progress.start]

/-- The error that refuses the leftover argument at position `i`. -/
def refusal (spell : Name → String) (callee : String) (formals : List Formal)
    (supplied : SuppliedNames) (i : Nat) : EvalError :=
  match supplied[i]?.join with
  | some n => .unusedArgument (spell n)
  | none   => .tooManyArguments callee formals.length supplied.length

/-- Without an empty or a repeated name, the collecting formal and the leftovers decide. -/
theorem run_of_distinct (hempty : some Name.empty ∉ supplied)
    (h : ∀ j n, ¬ Repeats formals supplied j n) :
    run spell callee formals supplied allowReorder
      = match formals.findIdx? Formal.isVariadic, unplaced formals supplied with
        | some c, left => .ok (outcome formals
            ((placedAll formals supplied).sources.setIfInBounds c (some (.collected left)))
            allowReorder)
        | none, []     => .ok (outcome formals (placedAll formals supplied).sources allowReorder)
        | none, i :: _ => .error (refusal spell callee formals supplied i) := by
  simp only [run, List.contains_iff_mem, hempty, if_false, placeNamed_ok spell h, bind, Except.bind,
    placePositional_placeNamed, leftovers_placedAll, refusal]
  cases formals.findIdx? Formal.isVariadic with
  | some c => rfl
  | none =>
      cases unplaced formals supplied with
      | nil => rfl
      | cons i rest => cases hname : supplied[i]?.join <;> simp only [hname] <;> rfl

/-- Leftovers that are collected make every match succeed. -/
theorem run_collecting (hempty : some Name.empty ∉ supplied)
    (h : ∀ j n, ¬ Repeats formals supplied j n) {c : Nat}
    (hc : formals.findIdx? Formal.isVariadic = some c) :
    ∃ m, run spell callee formals supplied allowReorder = .ok m ∧ m.allowsReorder = allowReorder
      ∧ Follows formals supplied m := by
  refine ⟨_, (run_of_distinct hempty h).trans (by rw [hc]), rfl, ?_⟩
  obtain ⟨hlt, -⟩ := List.findIdx?_eq_some_iff_getElem.1 hc
  refine follows_outcome h (fun hn => absurd (hc.symm.trans hn) (by simp))
    (by simp [size_placedAll]) (fun f hf => ?_) (fun f hf => ?_)
  · obtain rfl := Option.some.inj (hc.symm.trans hf)
    simp [size_placedAll, hlt]
  · have hne : c ≠ f := fun he => hf (he ▸ hc)
    simp [hne]

/-- Without leftovers every match succeeds. -/
theorem run_exact (hempty : some Name.empty ∉ supplied)
    (h : ∀ j n, ¬ Repeats formals supplied j n)
    (hc : formals.findIdx? Formal.isVariadic = none) (hleft : unplaced formals supplied = []) :
    ∃ m, run spell callee formals supplied allowReorder = .ok m ∧ m.allowsReorder = allowReorder
      ∧ Follows formals supplied m := by
  refine ⟨_, (run_of_distinct hempty h).trans (by rw [hc, hleft]), rfl, ?_⟩
  refine follows_outcome h (fun _ => hleft) size_placedAll (fun f hf => ?_) (fun _ _ => rfl)
  exact absurd (hc.symm.trans hf) (by simp)

/-- Leftovers that nothing collects make the match fail by the first of them. -/
theorem run_refused (hempty : some Name.empty ∉ supplied)
    (h : ∀ j n, ¬ Repeats formals supplied j n)
    (hc : formals.findIdx? Formal.isVariadic = none) {i : Nat} {rest : List Nat}
    (hleft : unplaced formals supplied = i :: rest) :
    run spell callee formals supplied allowReorder
      = .error (refusal spell callee formals supplied i) :=
  (run_of_distinct hempty h).trans (by rw [hc, hleft])

theorem run_repeated (hempty : some Name.empty ∉ supplied) {j : Nat} {n : Name}
    (h : FirstRepeat formals supplied j n) :
    run spell callee formals supplied allowReorder = .error (.duplicateArgument (spell n)) := by
  simp only [run, List.contains_iff_mem, hempty, if_false, placeNamed_error spell h]
  rfl

theorem run_empty (hempty : some Name.empty ∈ supplied) :
    run spell callee formals supplied allowReorder = .error .zeroLengthName := by
  simp only [run, List.contains_iff_mem, hempty, if_true]
  rfl

/-- Where names are repeated, one of them is the first. -/
theorem exists_firstRepeat {j : Nat} {n : Name} (h : Repeats formals supplied j n) :
    ∃ i m, FirstRepeat formals supplied i m := by
  induction j using Nat.strongRecOn generalizing n with
  | ind j ih =>
      by_cases hearlier : ∃ i < j, ∃ m, Repeats formals supplied i m
      · obtain ⟨i, hlt, m, hm⟩ := hearlier
        exact ih i hlt hm
      · exact ⟨j, n, h, fun i hlt m hm => hearlier ⟨i, hlt, m, hm⟩⟩

/-- Without an empty or a repeated name, a match succeeds or refuses an argument. -/
theorem run_ok_or_refused (spell : Name → String) (callee : String) (allowReorder : Bool)
    (hempty : some Name.empty ∉ supplied) (h : ∀ j n, ¬ Repeats formals supplied j n) :
    (∃ m, run spell callee formals supplied allowReorder = .ok m)
      ∨ ∃ i, run spell callee formals supplied allowReorder
          = .error (refusal spell callee formals supplied i) := by
  rw [run_of_distinct hempty h]
  split
  · exact Or.inl ⟨_, rfl⟩
  · exact Or.inl ⟨_, rfl⟩
  · exact Or.inr ⟨_, rfl⟩

theorem refusal_ne (i : Nat) : refusal spell callee formals supplied i ≠ .zeroLengthName
    ∧ ∀ text, refusal spell callee formals supplied i ≠ .duplicateArgument text := by
  rw [refusal]
  split <;> simp

/-- **Matching implements its rules.** An empty name is refused first, then the first repeated name;
    otherwise leftovers go to the first collecting formal, or the first of them is refused, and every
    other formal takes the argument that the rules place there, its default, or nothing. -/
theorem run_implements_rules (spell : Name → String) (callee : String) (formals : List Formal)
    (supplied : SuppliedNames) (allowReorder : Bool) :
    (run spell callee formals supplied allowReorder = .error .zeroLengthName
        ↔ some Name.empty ∈ supplied)
      ∧ (some Name.empty ∉ supplied →
        (∀ text, run spell callee formals supplied allowReorder = .error (.duplicateArgument text)
            ↔ ∃ j n, FirstRepeat formals supplied j n ∧ text = spell n)
        ∧ ((∀ j n, ¬ Repeats formals supplied j n) →
          (formals.findIdx? Formal.isVariadic ≠ none ∨ unplaced formals supplied = [] →
            ∃ m, run spell callee formals supplied allowReorder = .ok m
              ∧ m.allowsReorder = allowReorder ∧ Follows formals supplied m)
          ∧ (formals.findIdx? Formal.isVariadic = none →
            ∀ i rest, unplaced formals supplied = i :: rest →
              (∀ n, supplied[i]? = some (some n) →
                run spell callee formals supplied allowReorder = .error (.unusedArgument (spell n)))
              ∧ (supplied[i]? = some none →
                run spell callee formals supplied allowReorder
                  = .error (.tooManyArguments callee formals.length supplied.length))))) := by
  refine ⟨⟨fun hrun => ?_, run_empty⟩, fun hempty => ⟨fun text => ⟨fun hrun => ?_, ?_⟩,
    fun h => ⟨fun hok => ?_, fun hc i rest hleft => ?_⟩⟩⟩
  · by_contra hempty
    by_cases hrep : ∃ j n, Repeats formals supplied j n
    · obtain ⟨j, n, hjn⟩ := hrep
      obtain ⟨i, m, him⟩ := exists_firstRepeat hjn
      simp [run_repeated hempty him] at hrun
    · rcases run_ok_or_refused spell callee allowReorder hempty
        (fun j n hjn => hrep ⟨j, n, hjn⟩) with ⟨m, hm⟩ | ⟨i, hi⟩
      · simp [hm] at hrun
      · exact (refusal_ne i).1 (Except.error.inj (hi.symm.trans hrun))
  · by_cases hrep : ∃ j n, Repeats formals supplied j n
    · obtain ⟨j, n, hjn⟩ := hrep
      obtain ⟨i, m, him⟩ := exists_firstRepeat hjn
      refine ⟨i, m, him, ?_⟩
      simpa [run_repeated hempty him, eq_comm] using hrun
    · rcases run_ok_or_refused spell callee allowReorder hempty
        (fun j n hjn => hrep ⟨j, n, hjn⟩) with ⟨m, hm⟩ | ⟨i, hi⟩
      · simp [hm] at hrun
      · exact absurd (Except.error.inj (hi.symm.trans hrun)) ((refusal_ne i).2 text)
  · rintro ⟨j, n, hjn, rfl⟩
    exact run_repeated hempty hjn
  · cases hc : formals.findIdx? Formal.isVariadic with
    | some c => exact run_collecting hempty h hc
    | none => exact run_exact hempty h hc (hok.resolve_left fun hne => hne hc)
  · refine ⟨fun n hn => ?_, fun hn => ?_⟩ <;> rw [run_refused hempty h hc hleft, refusal, hn] <;> rfl

end Matching

end ScopeCall
