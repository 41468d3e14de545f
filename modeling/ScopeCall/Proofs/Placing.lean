import ScopeCall.Proofs.Gathering

/-!
# `ScopeCall.Proofs.Placing` — values at formals

Matching names positions; here values come to stand at them. Evaluating the arguments yields a value for each
name that was matched, in the same order, and binding hands each formal what its source says: the value at one
position, a new group of the values at several, or a default.

## Contents
- **Matches.** Where matching succeeds, each formal has a source that fits it.
- **Groups.** `Heap.Extends`: groups are made, and those that there are stay.
- **Binding.** `FormalSource.Gives`, and `MatchedArguments.bind_gives`.
- **Evaluating.** `Store.Looks`, which evaluation stays within, and `Arguments.evaluate_length`.
-/

namespace ScopeCall

/-! ## Matches -/

/-- A source that a formal can have where `n` arguments are supplied. -/
def FormalSource.Fits (n : Nat) (f : Formal) : FormalSource → Prop
  | .supplied i   => i < n
  | .collected is => f.isVariadic = true ∧ ∀ i ∈ is, i < n
  | .defaulted    => f.default?.isSome = true
  | .missing      => f.default? = none

namespace Matching

variable {spell : Name → String} {callee : String} {formals : List Formal} {supplied : SuppliedNames}
  {allowReorder : Bool} {m : MatchedArguments}

/-- **A match that succeeds follows the rules.** -/
theorem follows_of_run (h : run spell callee formals supplied allowReorder = .ok m) :
    Follows formals supplied m := by
  obtain ⟨hempty, hdistinct⟩ := distinct_of_run h
  cases hc : formals.findIdx? Formal.isVariadic with
  | some c =>
      obtain ⟨m', hrun, -, hfollows⟩ := run_collecting hempty hdistinct hc
      obtain rfl := Except.ok.inj (h.symm.trans hrun)
      exact hfollows
  | none =>
      cases hleft : unplaced formals supplied with
      | nil =>
          obtain ⟨m', hrun, -, hfollows⟩ := run_exact hempty hdistinct hc hleft
          obtain rfl := Except.ok.inj (h.symm.trans hrun)
          exact hfollows
      | cons i rest =>
          rw [run_refused hempty hdistinct hc hleft] at h
          cases h

/-- The source of each formal fits it. -/
theorem Follows.fits (h : Follows formals supplied m) {k : Nat} {f : Formal} (hf : formals[k]? = some f) :
    ∃ source, m.sources[k]? = some source ∧ source.Fits supplied.length f := by
  by_cases hplaced : ∃ i, Placed formals supplied i k
  · obtain ⟨i, hi⟩ := hplaced
    exact ⟨_, h.placed i k hi, hi.lt_length⟩
  by_cases hc : formals.findIdx? Formal.isVariadic = some k
  · refine ⟨_, h.collects k hc, ?_, fun i hi => (mem_unplaced.1 hi).1⟩
    obtain ⟨hlt, hvariadic, -⟩ := List.findIdx?_eq_some_iff_getElem.1 hc
    rw [List.getElem?_eq_getElem hlt] at hf
    exact Option.some.inj hf ▸ hvariadic
  · refine ⟨_, h.others k f hf (not_exists.1 hplaced) hc, ?_⟩
    split
    · assumption
    · exact Option.not_isSome_iff_eq_none.1 ‹_›

end Matching

/-! ## Groups -/

namespace Heap

variable {h h' h'' : Heap}

/-- Groups may have been made; those that there were are the same. -/
structure Extends (h h' : Heap) : Prop where
  size : h.groups.size ≤ h'.groups.size
  entries : ∀ g : GroupId, g.index < h.groups.size → h'.entries g = h.entries g

theorem Extends.refl (h : Heap) : h.Extends h := ⟨le_rfl, fun _ _ => rfl⟩

theorem Extends.trans (hg : h.Extends h') (hg' : h'.Extends h'') : h.Extends h'' :=
  ⟨hg.size.trans hg'.size, fun g hlt =>
    (hg'.entries g (Nat.lt_of_lt_of_le hlt hg.size)).trans (hg.entries g hlt)⟩

/-- A group is made with its entries. -/
theorem newGroup_spec (h : Heap) (entries : List GroupEntry) :
    h.Extends ((newGroup entries).run h).2
      ∧ ((newGroup entries).run h).1.index < ((newGroup entries).run h).2.groups.size
      ∧ ((newGroup entries).run h).2.entries ((newGroup entries).run h).1 = entries := by
  have hsize : (h.groups.push entries).size = h.groups.size + 1 := Array.size_push entries
  have hget : ∀ g : GroupId, ((newGroup entries).run h).2.entries g
      = if g.index = h.groups.size then entries else h.entries g :=
    fun g => Array.getD_push h.groups entries g.index
  refine ⟨⟨?_, fun g hg => ?_⟩, ?_, ?_⟩
  · exact Nat.le_of_lt (Nat.lt_of_lt_of_eq (Nat.lt_succ_self _) hsize.symm)
  · rw [hget, if_neg (Nat.ne_of_lt hg)]
  · exact Nat.lt_of_lt_of_eq (Nat.lt_succ_self _) hsize.symm
  · exact (hget _).trans (if_pos rfl)

end Heap

/-! ## Binding -/

/-- A group that exists holds the arguments at some positions, in their order. -/
def Heap.Holds (h : Heap) (g : GroupId) (names : SuppliedNames) (values : List Value) (is : List Nat) : Prop :=
  g.index < h.groups.size ∧ List.Forall₂ (fun i (e : GroupEntry) =>
    names[i]? = some e.name ∧ values[i]? = some e.value) is (h.entries g)

/-- What a source gives to a formal, if anything. -/
def FormalSource.Gives (h : Heap) (names : SuppliedNames) (values : List Value) (f : Formal) :
    FormalSource → Option Value → Prop
  | .supplied i, r   => ∃ v, values[i]? = some v ∧ r = some v
  | .collected is, r => ∃ g, h.Holds g names values is ∧ r = some (.group g)
  | .defaulted, r    => ∃ v, f.default? = some v ∧ r = some v
  | .missing, r      => f.default? = none ∧ r = none

namespace FormalSource

variable {h h' : Heap} {names : SuppliedNames} {values : List Value} {f : Formal} {source : FormalSource}
  {r : Option Value}

/-- What a formal has been given stays what it is when more groups are made. -/
theorem Gives.extends (hgives : source.Gives h names values f r) (hg : h.Extends h') :
    source.Gives h' names values f r := by
  cases source with
  | collected is =>
      obtain ⟨g, ⟨hlt, hholds⟩, rfl⟩ := hgives
      exact ⟨g, ⟨Nat.lt_of_lt_of_le hlt hg.size, hg.entries g hlt ▸ hholds⟩, rfl⟩
  | _ => exact hgives

end FormalSource

namespace Heap

variable {h h' h₁ h₁' : Heap} {r r' : Option Value}

/-- Two formals have been given the same: the same value or nothing, or groups with the same entries. -/
def SameArgument (h h' : Heap) (r r' : Option Value) : Prop :=
  r' = r ∨ ∃ g g', r = some (.group g) ∧ r' = some (.group g') ∧ g.index < h.groups.size
    ∧ g'.index < h'.groups.size ∧ h.entries g = h'.entries g'

theorem SameArgument.extends (hsame : h.SameArgument h' r r') (hextends : h.Extends h₁)
    (hextends' : h'.Extends h₁') : h₁.SameArgument h₁' r r' := by
  refine hsame.imp_right ?_
  rintro ⟨g, g', hr, hr', hlt, hlt', hentries⟩
  refine ⟨g, g', hr, hr', Nat.lt_of_lt_of_le hlt hextends.size, Nat.lt_of_lt_of_le hlt' hextends'.size, ?_⟩
  rw [hextends.entries g hlt, hextends'.entries g' hlt', hentries]

end Heap

namespace MatchedArguments

variable {names : SuppliedNames} {values : List Value}

/-- The entries of a new group are the arguments at its positions. -/
theorem forall₂_entries (hlength : values.length = names.length) {is : List Nat}
    (his : ∀ i ∈ is, i < names.length) :
    List.Forall₂ (fun i (e : GroupEntry) => names[i]? = some e.name ∧ values[i]? = some e.value) is
      (is.filterMap fun i => values[i]?.map fun v => ⟨names[i]?.join, v⟩) := by
  induction is with
  | nil => exact .nil
  | cons i is ih =>
      have hi : i < names.length := his i List.mem_cons_self
      obtain ⟨v, hv⟩ : ∃ v, values[i]? = some v := ⟨_, List.getElem?_eq_getElem (hlength ▸ hi)⟩
      have hn : names[i]? = some names[i] := List.getElem?_eq_getElem hi
      rw [List.filterMap_cons, hv]
      refine .cons ⟨?_, hv⟩ (ih fun j hj => his j (List.mem_cons_of_mem i hj))
      rw [hn]
      rfl

theorem bindFormal_extends (names : SuppliedNames) (values : List Value) (f : Formal) (source : FormalSource)
    (h : Heap) : h.Extends ((bindFormal names values f source).run h).2 := by
  cases source with
  | collected is => exact (h.newGroup_spec _).1
  | _ => exact .refl h

/-- **A formal is given what its source says.** -/
theorem bindFormal_gives (hlength : values.length = names.length) {f : Formal} {source : FormalSource}
    (hfits : source.Fits names.length f) (h : Heap) :
    source.Gives ((bindFormal names values f source).run h).2 names values f
      ((bindFormal names values f source).run h).1 := by
  cases source with
  | supplied i =>
      obtain ⟨v, hv⟩ : ∃ v, values[i]? = some v := ⟨_, List.getElem?_eq_getElem (hlength ▸ hfits)⟩
      exact ⟨v, hv, hv⟩
  | collected is =>
      obtain ⟨-, hlt, hentries⟩ := h.newGroup_spec
        (is.filterMap fun i => values[i]?.map fun v => ⟨names[i]?.join, v⟩)
      refine ⟨_, ⟨hlt, ?_⟩, rfl⟩
      refine Eq.subst (motive := fun entries => List.Forall₂ _ is entries) hentries.symm ?_
      exact forall₂_entries hlength hfits.2
  | defaulted =>
      obtain ⟨v, hv⟩ := Option.isSome_iff_exists.1 hfits
      exact ⟨v, hv, hv⟩
  | missing => exact ⟨hfits, rfl⟩

/-- A source gives a formal the same in any heap. -/
theorem bindFormal_same (names : SuppliedNames) (values : List Value) (f : Formal) (source : FormalSource)
    (h h' : Heap) : ((bindFormal names values f source).run h).2.SameArgument
      ((bindFormal names values f source).run h').2 ((bindFormal names values f source).run h).1
      ((bindFormal names values f source).run h').1 := by
  cases source with
  | collected is =>
      obtain ⟨-, hlt, hentries⟩ := h.newGroup_spec
        (is.filterMap fun i => values[i]?.map fun v => ⟨names[i]?.join, v⟩)
      obtain ⟨-, hlt', hentries'⟩ := h'.newGroup_spec
        (is.filterMap fun i => values[i]?.map fun v => ⟨names[i]?.join, v⟩)
      exact .inr ⟨_, _, rfl, rfl, hlt, hlt', hentries.trans hentries'.symm⟩
  | _ => exact .inl rfl

section Several

/-- Gives each of several formals what its source says. -/
def bindAll (names : SuppliedNames) (values : List Value) (pairs : List (Formal × FormalSource)) :
    StateM Heap (List (Option Value)) :=
  pairs.mapM fun p => bindFormal names values p.1 p.2

theorem bindAll_cons_run (p : Formal × FormalSource) (pairs : List (Formal × FormalSource)) (h : Heap) :
    (bindAll names values (p :: pairs)).run h
      = let first := (bindFormal names values p.1 p.2).run h
        let rest := (bindAll names values pairs).run first.2
        (first.1 :: rest.1, rest.2) := by
  unfold bindAll
  rw [List.mapM_cons]
  rfl

theorem bindAll_extends (pairs : List (Formal × FormalSource)) (h : Heap) :
    h.Extends ((bindAll names values pairs).run h).2 := by
  induction pairs generalizing h with
  | nil => exact .refl h
  | cons p pairs ih =>
      rw [bindAll_cons_run]
      exact (bindFormal_extends names values p.1 p.2 h).trans (ih _)

theorem bindAll_gives (hlength : values.length = names.length) {pairs : List (Formal × FormalSource)}
    (hfits : ∀ p ∈ pairs, p.2.Fits names.length p.1) (h : Heap) :
    List.Forall₂ (fun p r => p.2.Gives ((bindAll names values pairs).run h).2 names values p.1 r) pairs
      ((bindAll names values pairs).run h).1 := by
  induction pairs generalizing h with
  | nil => exact .nil
  | cons p pairs ih =>
      have hfirst := bindFormal_gives hlength (hfits p List.mem_cons_self) h
      rw [bindAll_cons_run]
      refine .cons (hfirst.extends (bindAll_extends pairs _)) ?_
      exact ih (fun q hq => hfits q (List.mem_cons_of_mem p hq)) _

theorem bindAll_same (pairs : List (Formal × FormalSource)) (h h' : Heap) :
    List.Forall₂ (((bindAll names values pairs).run h).2.SameArgument
      ((bindAll names values pairs).run h').2) ((bindAll names values pairs).run h).1
      ((bindAll names values pairs).run h').1 := by
  induction pairs generalizing h h' with
  | nil => exact .nil
  | cons p pairs ih =>
      have hfirst := bindFormal_same names values p.1 p.2 h h'
      rw [bindAll_cons_run, bindAll_cons_run]
      exact .cons (hfirst.extends (bindAll_extends pairs _) (bindAll_extends pairs _)) (ih _ _)

end Several

/-- **Binding gives each formal what its source says.** -/
theorem bind_gives {formals : List Formal} {m : MatchedArguments} (hfollows : Matching.Follows formals names m)
    (hlength : values.length = names.length) (h : Heap) :
    List.Forall₂ (fun p r => p.2.Gives ((m.bind formals names values).run h).2 names values p.1 r)
      (formals.zip m.sources) ((m.bind formals names values).run h).1 := by
  refine bindAll_gives hlength (fun p hp => ?_) h
  obtain ⟨k, hk⟩ := List.mem_iff_getElem?.1 hp
  obtain ⟨hf, hsource⟩ := List.getElem?_zip_eq_some.1 hk
  obtain ⟨source, hsource', hfits⟩ := hfollows.fits hf
  obtain rfl := Option.some.inj (hsource.symm.trans hsource')
  exact hfits

theorem bind_extends (m : MatchedArguments) (formals : List Formal) (names : SuppliedNames)
    (values : List Value) (h : Heap) : h.Extends ((m.bind formals names values).run h).2 :=
  bindAll_extends (formals.zip m.sources) h

/-- **Binding the same values gives the same**, in whatever heaps. -/
theorem bind_same (m : MatchedArguments) (formals : List Formal) (names : SuppliedNames) (values : List Value)
    (h h' : Heap) : List.Forall₂ (((m.bind formals names values).run h).2.SameArgument
      ((m.bind formals names values).run h').2) ((m.bind formals names values).run h).1
      ((m.bind formals names values).run h').1 :=
  bindAll_same (formals.zip m.sources) h h'

end MatchedArguments

/-! ## Evaluating -/

namespace Store

variable {s s' s'' : Store}

/-- What looking names up leaves: notes of lookups, at layouts and at read sites. -/
structure Notes (s s' : Store) : Prop where
  rest : s' = { s with lookups := s'.lookups, layouts := s'.layouts, caches := s'.caches }
  size : s'.layouts.size = s.layouts.size
  layout : ∀ k, s'.layout k = { s.layout k with
    recorded := (s'.layout k).recorded
    memos := (s'.layout k).memos }

namespace Notes

theorem refl (s : Store) : s.Notes s := ⟨rfl, rfl, fun _ => rfl⟩

theorem trans (h : s.Notes s') (h' : s'.Notes s'') : s.Notes s'' where
  rest := by
    rw [h'.rest, h.rest]
  size := h'.size.trans h.size
  layout k := by
    rw [h'.layout, h.layout]

/-- Notes may be made at a layout. -/
theorem modifyLayout (s : Store) (l : LayoutId) {f : Layout → Layout}
    (hf : f (s.layout l)
      = { s.layout l with recorded := (f (s.layout l)).recorded, memos := (f (s.layout l)).memos }) :
    s.Notes (s.modifyLayout l f) where
  rest := rfl
  size := Array.size_modify
  layout k := by
    rw [layout_modifyLayout]
    split
    · rename_i h
      rw [h.1]
      exact hf
    · rfl

theorem recordWalk (s : Store) (n : Name) (path : List ActivationId) : s.Notes (s.recordWalk n path) where
  rest := by
    rw [(recordWalk_eq s n path).1]
  size := (recordWalk_eq s n path).2
  layout k := Layout.eq_of_unrecorded
    (part_recordWalk (fun x => { x with recorded := [] }) (fun _ _ => rfl) s n path k)

/-- Walking for a name leaves notes of the walk. -/
theorem remembering (s : Store) (a : ActivationId) (n : Name) (f : Finding) (path : List ActivationId) :
    s.Notes (s.remembering a n f path) := by
  unfold Store.remembering Store.memoize
  dsimp only
  have hadd : ∀ label, s.Notes (s.addLookup label) := fun _ => ⟨rfl, rfl, fun _ => rfl⟩
  have hmemoize : ∀ (s : Store) l r, s.Notes (s.modifyLayout l (·.memoize n r)) := fun s l r => by
    refine modifyLayout s l ?_
    unfold Layout.memoize Layout.record
    split <;> rfl
  have hdrop : ∀ (s : Store) rs, s.Notes (s.invalidateEach rs) := fun s rs => by
    rw [invalidateEach_eq]
    exact ⟨rfl, rfl, fun _ => rfl⟩
  exact ((hadd _).trans (recordWalk _ n path)).trans ((hmemoize _ _ _).trans (hdrop _ _))

theorem resolve (s : Store) (a : ActivationId) (n : Name) : s.Notes ((Store.resolve a n).run s).2 := by
  have hanew : s.Notes ((resolveAnew a n).run s).2 := by
    rw [resolveAnew_run]
    split
    · exact .refl s
    · exact remembering s a n _ _
  rw [resolve_run]
  split
  · split
    · exact .refl s
    · exact hanew
  · exact hanew

theorem cachedRead (s : Store) (c : CacheId) (a : ActivationId) :
    s.Notes ((Store.cachedRead c a).run s).2 := by
  have hresolve := resolve s a (s.cache c).name
  rw [cachedRead_run]
  split
  · exact .refl s
  · exact .refl s
  · generalize (Store.resolve a (s.cache c).name).run s = result at hresolve ⊢
    rcases result with ⟨_ | r, s₁⟩
    · exact hresolve
    · exact hresolve.trans ⟨rfl, rfl, fun _ => rfl⟩

end Notes

/-- What evaluation leaves: notes of lookups, what is held, and whatever active bindings do to texts, lists
    and groups. -/
structure Looks (s s' : Store) : Prop where
  rest : s' = { s with
    heap := s'.heap
    lookups := s'.lookups
    layouts := s'.layouts
    caches := s'.caches
    stack := s'.stack }
  size : s'.layouts.size = s.layouts.size
  layout : ∀ k, s'.layout k = { s.layout k with
    recorded := (s'.layout k).recorded
    memos := (s'.layout k).memos }

namespace Looks

theorem refl (s : Store) : s.Looks s := ⟨rfl, rfl, fun _ => rfl⟩

theorem trans (h : s.Looks s') (h' : s'.Looks s'') : s.Looks s'' where
  rest := by
    rw [h'.rest, h.rest]
  size := h'.size.trans h.size
  layout k := by
    rw [h'.layout, h.layout]

theorem of_notes (h : s.Notes s') : s.Looks s' where
  rest := by
    rw [h.rest]
  size := h.size
  layout := h.layout

/-- Scopes are the same. -/
theorem sameScopes (h : s.Looks s') : s.SameScopes s' where
  activations := by rw [h.rest]
  slots k := by rw [h.layout]
  enclosing k := by rw [h.layout]
  contexts := by rw [h.rest]

end Looks

end Store

namespace EvalM

variable {σ : Type} {getters : Getters σ}

theorem steady_looks (getters : Getters σ) : Steady getters Store.Looks where
  refl := .refl
  trans := .trans
  hold _ _ := ⟨rfl, rfl, fun _ => rfl⟩
  cachedRead s c a := .of_notes (.cachedRead s c a)
  getter _ _ := ⟨rfl, rfl, fun _ => rfl⟩

/-- Active bindings may make groups, and leave those that there are. -/
def KeepGroups (getters : Getters σ) : Prop :=
  ∀ (g : GetterId) (h : Heap) (host : σ), h.Extends ((getters g).run (h, host)).2.1

theorem KeepGroups.steady (h : KeepGroups getters) :
    Steady getters fun s s' => s.heap.Extends s'.heap where
  refl s := .refl s.heap
  trans := .trans
  hold s _ := .refl s.heap
  cachedRead s c a := by
    rw [(Store.Notes.cachedRead s c a).rest]
    exact .refl s.heap
  getter g m := h g m.store.heap m.host

end EvalM

namespace Arguments

variable {σ : Type} {getters : Getters σ} {caller : ActivationId}

/-- **There is a value for each name that was matched.** -/
theorem evaluate_length {args : Arguments} {groups : List (List GroupEntry)} {values : List Value}
    {m m' : Machine σ} (h : (evaluate getters caller args groups).run.run m = (.ok values, m')) :
    values.length = (flattenedNames args groups).length := by
  induction args generalizing groups values m with
  | nil =>
      obtain rfl : values = [] := by
        cases h
        rfl
      rfl
  | cons spec rest ih =>
      -- An argument that is written is one value, and one that is forwarded as many as its group has.
      have hcons : ∀ (vs : List Value) (f : List Value → List Value) groups (m : Machine σ),
          (do EvalM.hold vs; return f (← evaluate getters caller rest groups) : EvalM σ _).run.run m
            = (.ok values, m') → ∃ others, values = f others
              ∧ others.length = (flattenedNames rest groups).length := by
        intro vs f groups m hrun
        obtain ⟨-, m₁, -, hrun⟩ := EvalM.run_bind_ok hrun
        obtain ⟨others, m₂, hothers, hrun⟩ := EvalM.run_bind_ok hrun
        cases hrun
        exact ⟨others, rfl, ih hothers⟩
      unfold evaluate at h
      unfold flattenedNames ArgSpec.isForward
      cases hexpr : spec.expr with
      | const v =>
          rw [hexpr] at h
          obtain ⟨others, rfl, hlength⟩ := hcons [v] (v :: ·) groups m h
          exact congrArg Nat.succ hlength
      | read c =>
          rw [hexpr] at h
          obtain ⟨v, m₁, -, h⟩ := EvalM.run_bind_ok h
          obtain ⟨others, rfl, hlength⟩ := hcons [v] (v :: ·) groups m₁ h
          exact congrArg Nat.succ hlength
      | forward =>
          rw [hexpr] at h
          cases groups with
          | nil => exact ih h
          | cons group groups =>
              obtain ⟨others, rfl, hlength⟩ := hcons _ (group.map (·.value) ++ ·) groups m h
              rw [if_pos rfl, List.length_append, List.length_append, List.length_map, List.length_map,
                hlength]

end Arguments

end ScopeCall
