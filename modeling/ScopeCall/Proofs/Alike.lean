import ScopeCall.Argument
import ScopeCall.Proofs.Walking

/-!
# `ScopeCall.Proofs.Alike` — what calls keep to themselves

Calls leave something behind that no scope can see: the nodes of their sites, the copies made of bodies,
demands for callers. Two stores that differ in nothing else answer every lookup alike. The nodes of a site
keep functions alive, which lookups can see; but where each function that is kept in one store only is held
from outside as well, the same objects are alive in both.

## Contents
- **Stores.** `Store.Alike`, and what two such stores have in common.
- **What is alive.** `Alike.isLive`.
- **Meanwhile.** What everything that is not a call through a site leaves of the site and of functions.
- **Operations.** `Store.Apart`: operations that neither see nor change what calls keep; reading a name is
  one.
-/

namespace ScopeCall

namespace Store

variable {s s' s'' : Store} {i : SiteId}

/-! ## Stores -/

/-- The store, with what calls keep to themselves taken from another. -/
def withCalls (s p : Store) : Store :=
  { s with
    sites := p.sites
    callables := p.callables
    targets := p.targets
    demands := p.demands
    stack := p.stack }

/-- `s'` differs from `s` only in what calls keep: the nodes of one site, copies of bodies, demands, and
    how often the same objects are held. -/
structure Alike (i : SiteId) (s s' : Store) : Prop where
  rest : s' = s.withCalls s'
  sites : s'.sites.size = s.sites.size
  others : ∀ j, j ≠ i → s'.site j = s.site j
  here : s'.site i = { s.site i with nodes := (s'.site i).nodes }
  callables : s'.callables.size = s.callables.size
  callable : ∀ c, s'.callable c = { s.callable c with copies := (s'.callable c).copies }
  targets : s.targets.size ≤ s'.targets.size
  target : ∀ t, t.index < s.targets.size → s'.target t = s.target t
  stack : ∀ r, r ∈ s'.stack ↔ r ∈ s.stack
  keeps : ∀ r ∈ s.refs (.site i), r ∈ s'.refs (.site i)
  adds : ∀ r ∈ s'.refs (.site i), r ∈ s.refs (.site i) ∨ r ∈ s.roots

theorem Alike.refl (i : SiteId) (s : Store) : s.Alike i s :=
  ⟨rfl, rfl, fun _ _ => rfl, rfl, rfl, fun _ => rfl, le_rfl, fun _ _ => rfl, fun _ => Iff.rfl,
    fun _ hr => hr, fun _ hr => Or.inl hr⟩

namespace Alike

variable (h : s.Alike i s')

include h

/-- What does not depend on what calls keep is the same. -/
theorem part {α : Type} (f : Store → α) (hf : ∀ s p, f (withCalls s p) = f s) : f s' = f s := by
  rw [h.rest]
  exact hf s s'

theorem roots (r : Ref) : r ∈ s'.roots ↔ r ∈ s.roots := by
  unfold Store.roots
  rw [List.mem_append, List.mem_append, h.stack, h.part Store.handles fun _ _ => rfl]

theorem trans (h' : s'.Alike i s'') : s.Alike i s'' where
  rest := by
    have hrest := h'.rest
    rw [h.rest] at hrest
    exact hrest
  sites := h'.sites.trans h.sites
  others j hj := (h'.others j hj).trans (h.others j hj)
  here := by
    rw [h'.here, h.here]
  callables := h'.callables.trans h.callables
  callable c := by
    rw [h'.callable, h.callable]
  targets := h.targets.trans h'.targets
  target t ht := (h'.target t (Nat.lt_of_lt_of_le ht h.targets)).trans (h.target t ht)
  stack r := (h'.stack r).trans (h.stack r)
  keeps r hr := h'.keeps r (h.keeps r hr)
  adds r hr := (h'.adds r hr).elim (h.adds r) fun hin => Or.inr ((h.roots r).1 hin)

/-! ## What is alive -/

theorem allocated (r : Ref) : s'.Allocated r ↔ s.Allocated r := by
  cases r with
  | callable c => simp only [Allocated, h.callables]
  | site j => simp only [Allocated, h.sites]
  | layout l => exact iff_of_eq (h.part (·.Allocated (.layout l)) fun _ _ => rfl)
  | activation a => exact iff_of_eq (h.part (·.Allocated (.activation a)) fun _ _ => rfl)
  | list l => exact iff_of_eq (h.part (·.Allocated (.list l)) fun _ _ => rfl)
  | group g => exact iff_of_eq (h.part (·.Allocated (.group g)) fun _ _ => rfl)
  | stable t => exact iff_of_eq (h.part (·.Allocated (.stable t)) fun _ _ => rfl)
  | cache c => exact iff_of_eq (h.part (·.Allocated (.cache c)) fun _ _ => rfl)

theorem position : s'.position = s.position := by
  funext r
  have hl := h.part (·.layouts.size) fun _ _ => rfl
  have ha := h.part (·.activations.size) fun _ _ => rfl
  have hh := h.part Store.heap fun _ _ => rfl
  have ht := h.part (·.stables.size) fun _ _ => rfl
  have hc := h.part (·.caches.size) fun _ _ => rfl
  cases r <;> simp only [Store.position, hl, ha, hh, ht, hc, h.callables]

/-- Each object refers to the same objects, but for those that the site keeps and that are held. -/
theorem refs (q : Ref) : (∀ r ∈ s.refs q, r ∈ s'.refs q)
    ∧ ∀ r ∈ s'.refs q, r ∈ s.refs q ∨ r ∈ s.roots := by
  have hsame : s'.refs q = s.refs q →
      (∀ r ∈ s.refs q, r ∈ s'.refs q) ∧ ∀ r ∈ s'.refs q, r ∈ s.refs q ∨ r ∈ s.roots := by
    intro heq
    rw [heq]
    exact ⟨fun r hr => hr, fun r hr => Or.inl hr⟩
  have hnone : ¬ s.Allocated q → s'.refs q = s.refs q := fun hq => by
    rw [refs_of_not_allocated hq, refs_of_not_allocated fun hq' => hq ((h.allocated q).1 hq')]
  cases q with
  | callable c =>
      apply hsame
      by_cases hc : s.Allocated (.callable c)
      · rw [refs_callable hc, refs_callable ((h.allocated _).2 hc), h.callable c]
        rfl
      · exact hnone hc
  | site j =>
      by_cases hj : j = i
      · subst hj
        exact ⟨h.keeps, h.adds⟩
      · apply hsame
        by_cases hc : s.Allocated (.site j)
        · rw [refs_site hc, refs_site ((h.allocated _).2 hc), h.others j hj]
        · exact hnone hc
  | layout l => exact hsame (h.part (·.refs (.layout l)) fun _ _ => rfl)
  | activation a => exact hsame (h.part (·.refs (.activation a)) fun _ _ => rfl)
  | list l => exact hsame (h.part (·.refs (.list l)) fun _ _ => rfl)
  | group g => exact hsame (h.part (·.refs (.group g)) fun _ _ => rfl)
  | stable t => exact hsame (h.part (·.refs (.stable t)) fun _ _ => rfl)
  | cache c => exact hsame (h.part (·.refs (.cache c)) fun _ _ => rfl)

theorem size_outgoing : s'.outgoing.size = s.outgoing.size := by
  have hl := h.part (·.layouts.size) fun _ _ => rfl
  have ha := h.part (·.activations.size) fun _ _ => rfl
  have hh := h.part Store.heap fun _ _ => rfl
  have ht := h.part (·.stables.size) fun _ _ => rfl
  have hc := h.part (·.caches.size) fun _ _ => rfl
  rw [Store.size_outgoing, Store.size_outgoing]
  simp only [hl, ha, hh, ht, hc, h.callables, h.sites]

theorem outgoingPositions (j : Nat) : (∀ k ∈ s.outgoingPositions[j]?.getD [],
      k ∈ s'.outgoingPositions[j]?.getD [])
    ∧ ∀ k ∈ s'.outgoingPositions[j]?.getD [],
        k ∈ s.outgoingPositions[j]?.getD [] ∨ k ∈ s.roots.map s.position := by
  have hsize := h.size_outgoing
  by_cases hj : j < s.outgoing.size
  · obtain ⟨q, hq, rfl⟩ := exists_position hj
    have hthere : s'.outgoingPositions[s.position q]?.getD [] = (s'.refs q).map s.position := by
      rw [← h.position]
      exact outgoingPositions_position ((h.allocated q).2 hq)
    rw [outgoingPositions_position hq, hthere]
    obtain ⟨hkeeps, hadds⟩ := h.refs q
    constructor
    · intro k hk
      obtain ⟨r, hr, rfl⟩ := List.mem_map.1 hk
      exact List.mem_map_of_mem (hkeeps r hr)
    · intro k hk
      obtain ⟨r, hr, rfl⟩ := List.mem_map.1 hk
      exact (hadds r hr).imp List.mem_map_of_mem List.mem_map_of_mem
  · have hnone : ∀ s₁ : Store, s₁.outgoing.size = s.outgoing.size → s₁.outgoingPositions[j]? = none := by
      intro s₁ hs₁
      apply Array.getElem?_eq_none
      rw [Store.outgoingPositions, Array.size_map]
      omega
    rw [hnone s rfl, hnone s' hsize]
    simp

/-- **The same objects are alive.** This needs no store in good order: what the getters of active bindings
    leave in the store may be anything. -/
theorem isLive (r : Ref) : s'.isLive r = s.isLive r := by
  have hroots : ∀ k, k ∈ s'.roots.map s'.position ↔ k ∈ s.roots.map s.position := by
    intro k
    rw [h.position, List.mem_map, List.mem_map]
    exact exists_congr fun r => and_congr_left fun _ => h.roots r
  have hsize : s'.outgoingPositions.size = s.outgoingPositions.size := by
    rw [Store.outgoingPositions, Store.outgoingPositions, Array.size_map, Array.size_map, h.size_outgoing]
  have hcontains : s'.liveSet.contains s' r = true ↔ s.liveSet.contains s r = true := by
    rw [contains_iff_kept, contains_iff_kept, h.position]
    constructor
    · apply Kept.of_subset hsize
      · intro k hk
        rw [← h.position] at hk
        exact (hroots k).1 hk
      · exact fun j => (h.outgoingPositions j).2
    · apply Kept.of_subset hsize.symm
      · intro k hk
        rw [← h.position]
        exact (hroots k).2 hk
      · exact fun j k hk => Or.inl ((h.outgoingPositions j).1 k hk)
  have hheld : s'.roots.contains r = s.roots.contains r := by
    rw [Bool.eq_iff_iff, List.contains_iff_mem, List.contains_iff_mem]
    exact h.roots r
  unfold Store.isLive
  rw [hheld, Bool.eq_iff_iff.2 hcontains]

/-! ## Reading -/

theorem layout : s'.layout = s.layout := h.part Store.layout fun _ _ => rfl

theorem layoutOf : s'.layoutOf = s.layoutOf := h.part Store.layoutOf fun _ _ => rfl

theorem cache : s'.cache = s.cache := h.part Store.cache fun _ _ => rfl

theorem spell : s'.spell = s.spell := h.part Store.spell fun _ _ => rfl

theorem entriesOf : Arguments.entriesOf s' = Arguments.entriesOf s :=
  h.part Arguments.entriesOf fun _ _ => rfl

theorem sameScopes : s.SameScopes s' where
  activations := h.part Store.activations fun _ _ => rfl
  slots k := by rw [h.layout]
  enclosing k := by rw [h.layout]
  contexts := h.part Store.contexts fun _ _ => rfl

theorem lookupDynamic (a : ActivationId) (n : Name) : s'.lookupDynamic a n = s.lookupDynamic a n :=
  h.sameScopes.lookupDynamic a n

theorem upgradeActivation : s'.upgradeActivation = s.upgradeActivation := by
  funext a
  unfold Store.upgradeActivation
  rw [h.isLive]

theorem stopAt : s'.stopAt = s.stopAt := by
  funext l n
  have hslot := h.part Store.slot? fun _ _ => rfl
  have hstable := h.part Store.stable fun _ _ => rfl
  have hsingle : s'.singletonActivation l = s.singletonActivation l := by
    unfold singletonActivation
    rw [h.layout, h.upgradeActivation]
  unfold Store.stopAt
  rw [h.layout, hslot, hstable, hsingle]

theorem walk (n : Name) (fuel : Nat) (a : ActivationId) : s'.walk n fuel a = s.walk n fuel a := by
  have henclosed := h.part Store.isEnclosedBy fun _ _ => rfl
  have hactivation := h.part Store.activation fun _ _ => rfl
  induction fuel generalizing a with
  | zero => rfl
  | succ fuel ih =>
      unfold Store.walk
      rw [h.stopAt, h.layoutOf, henclosed, hactivation, funext ih]

theorem resultValid : s'.resultValid = s.resultValid := by
  funext r
  cases r with
  | stable t g => exact h.part (·.resultValid (.stable t g)) fun _ _ => rfl
  | boundAt a slot g => exact h.part (·.resultValid (.boundAt a slot g)) fun _ _ => rfl
  | unbound g => exact h.part (·.resultValid (.unbound g)) fun _ _ => rfl

theorem readResult (r : LookupResult) : s'.readResult r = s.readResult r := by
  have hstable := h.part Store.stable fun _ _ => rfl
  have hread := h.part Store.read fun _ _ => rfl
  unfold Store.readResult
  rw [h.resultValid, hstable, h.upgradeActivation, hread]

theorem remembered : s'.remembered = s.remembered := by
  funext c l
  unfold Store.remembered
  rw [h.cache, funext h.readResult]

/-- A change that neither sees nor touches what calls keep can be made in both. -/
theorem change {g : Store → Store} (hg : ∀ s p, g (withCalls s p) = (g s).withCalls p)
    (hhandles : ∀ s, (g s).handles = s.handles) : (g s).Alike i (g s') := by
  have hleft : g s = (g s).withCalls s := hg s s
  have hright : g s' = (g s).withCalls s' := by
    rw [← hg, ← h.rest]
  have hroots : (g s).roots = s.roots := by
    unfold Store.roots
    rw [hhandles, hleft]
    rfl
  have hrefs : (g s).refs (.site i) = s.refs (.site i) := by
    rw [hleft]
    rfl
  rw [hright]
  constructor
  case rest => rfl
  case adds =>
    rw [hrefs, hroots]
    exact h.adds
  all_goals rw [hleft]
  case sites => exact h.sites
  case others => exact h.others
  case here => exact h.here
  case callables => exact h.callables
  case callable => exact h.callable
  case targets => exact h.targets
  case target => exact h.target
  case stack => exact h.stack
  case keeps => exact h.keeps

/-- The same objects can be held in both. -/
theorem hold (rs : List Ref) : (s.hold rs).Alike i (s'.hold rs) where
  rest := by
    have hrest := congrArg (Store.hold · rs) h.rest
    exact hrest
  sites := h.sites
  others := h.others
  here := h.here
  callables := h.callables
  callable := h.callable
  targets := h.targets
  target := h.target
  stack r := by
    unfold Store.hold
    rw [List.mem_append, List.mem_append, h.stack]
  keeps := h.keeps
  adds r hr := by
    have hroots : (s.hold rs).roots = rs ++ s.roots := List.append_assoc _ _ _
    rw [hroots]
    exact (h.adds r hr).imp_right (List.mem_append_right rs)

end Alike

/-! ## Meanwhile -/

/-- Each function runs a body that exists. -/
def BodiesExist (s : Store) : Prop :=
  ∀ c t, (s.callable c).target? = some t → t.index < s.targets.size

/-- What everything but the calls through a site leaves of the site and of the functions: the site itself,
    and all of a function but the number of its copies. -/
structure Meanwhile (i : SiteId) (s s' : Store) : Prop where
  sites : s.sites.size ≤ s'.sites.size
  site : s'.site i = s.site i
  callables : s.callables.size ≤ s'.callables.size
  callable : ∀ c, s.Allocated (.callable c) →
    s'.callable c = { s.callable c with copies := (s'.callable c).copies }
  targets : s.targets.size ≤ s'.targets.size
  body : ∀ t, t.index < s.targets.size → (s'.target t).body = (s.target t).body
  bodies : s.BodiesExist → s'.BodiesExist

theorem Meanwhile.of_eq (hsites : s'.sites = s.sites) (hcallables : s'.callables = s.callables)
    (htargets : s'.targets = s.targets) : s.Meanwhile i s' := by
  have hsite : s'.site = s.site := by
    unfold Store.site
    rw [hsites]
  have hcallable : s'.callable = s.callable := by
    unfold Store.callable
    rw [hcallables]
  have htarget : s'.target = s.target := by
    unfold Store.target
    rw [htargets]
  constructor
  case sites =>
    rw [hsites]
  case site =>
    rw [hsite]
  case callables =>
    rw [hcallables]
  case callable =>
    intro c _
    rw [hcallable]
  case targets =>
    rw [htargets]
  case body =>
    intro t _
    rw [htarget]
  case bodies =>
    intro h
    unfold BodiesExist
    rw [hcallable, htargets]
    exact h

theorem Meanwhile.refl (i : SiteId) (s : Store) : s.Meanwhile i s := .of_eq rfl rfl rfl

theorem Meanwhile.trans (h : s.Meanwhile i s') (h' : s'.Meanwhile i s'') : s.Meanwhile i s'' where
  sites := h.sites.trans h'.sites
  site := h'.site.trans h.site
  callables := h.callables.trans h'.callables
  callable c hc := by
    rw [h'.callable c (Nat.lt_of_lt_of_le hc h.callables), h.callable c hc]
  targets := h.targets.trans h'.targets
  body t ht := (h'.body t (Nat.lt_of_lt_of_le ht h.targets)).trans (h.body t ht)
  bodies hs := h'.bodies (h.bodies hs)

/-! ## Operations -/

/-- An operation that has nothing to do with what calls keep: it leaves the site and the functions alone,
    and does the same in stores that differ in nothing else. -/
structure Apart (i : SiteId) {α : Type} (act : StoreM α) : Prop where
  keeps : ∀ s : Store, s.Meanwhile i (act.run s).2
  blind : ∀ {s s' : Store}, s.Alike i s' →
    (act.run s').1 = (act.run s).1 ∧ (act.run s).2.Alike i (act.run s').2

namespace Apart

variable {α β : Type}

theorem of_pure (a : α) : Apart i (pure a : StoreM α) where
  keeps s := .refl i s
  blind h := ⟨rfl, h⟩

theorem bind {act : StoreM β} {f : β → StoreM α} (h : Apart i act) (hf : ∀ b, Apart i (f b)) :
    Apart i (act >>= f) where
  keeps s := by
    rw [run_bind_state]
    exact (h.keeps s).trans ((hf _).keeps _)
  blind {s s'} hs := by
    obtain ⟨hsame, halike⟩ := h.blind hs
    rw [run_bind_state, run_bind_state, hsame]
    exact (hf _).blind halike

/-- Reading the store is no look at what calls keep, if what is read does not depend on it. -/
theorem get_bind {f : Store → StoreM α} (hf : ∀ {s s' : Store}, s.Alike i s' → f s' = f s)
    (hap : ∀ s, Apart i (f s)) : Apart i (get >>= f) where
  keeps s := (hap s).keeps s
  blind {s s'} hs := by
    rw [run_get_bind_state, run_get_bind_state, hf hs]
    exact (hap s).blind hs

theorem of_modifyGet {r : Store → α} {g : Store → Store} (hr : ∀ s p, r (withCalls s p) = r s)
    (hg : ∀ s p, g (withCalls s p) = (g s).withCalls p) (hhandles : ∀ s, (g s).handles = s.handles) :
    Apart i (modifyGet fun s => (r s, g s)) where
  keeps s := by
    have hself : g s = (g s).withCalls s := hg s s
    have hsame : (g s).sites = s.sites ∧ (g s).callables = s.callables ∧ (g s).targets = s.targets := by
      rw [hself]
      exact ⟨rfl, rfl, rfl⟩
    exact .of_eq hsame.1 hsame.2.1 hsame.2.2
  blind h := ⟨h.part r hr, h.change hg hhandles⟩

theorem of_modify {g : Store → Store} (hg : ∀ s p, g (withCalls s p) = (g s).withCalls p)
    (hhandles : ∀ s, (g s).handles = s.handles) : Apart i (modify g : StoreM Unit) :=
  of_modifyGet (r := fun _ => ()) (fun _ _ => rfl) hg hhandles

theorem hold (rs : List Ref) : Apart i (modify (·.hold rs) : StoreM Unit) where
  keeps _ := .of_eq rfl rfl rfl
  blind h := ⟨rfl, h.hold rs⟩

theorem onHeap (act : StateM Heap α) : Apart i (Store.onHeap act) :=
  of_modifyGet (r := fun s => (act.run s.heap).1) (fun _ _ => rfl) (fun _ _ => rfl) fun _ => rfl

theorem recordWalk (n : Name) (path : List ActivationId) :
    Apart i (modify (·.recordWalk n path) : StoreM Unit) := by
  apply of_modify
  · intro s p
    induction path generalizing s with
    | nil => rfl
    | cons b path ih => exact ih (s.modifyLayout (s.layoutOf b) (·.record n))
  · intro s
    rw [(recordWalk_eq s n path).1]

theorem memoize (l : LayoutId) (n : Name) (r : LookupResult) :
    Apart i (modify (·.memoize l n r) : StoreM Unit) := by
  have heach : ∀ (rs : List LookupId) (s p : Store),
      (withCalls s p).invalidateEach rs = (s.invalidateEach rs).withCalls p := by
    intro rs
    induction rs with
    | nil => exact fun _ _ => rfl
    | cons g rs ih => exact fun s p => ih (s.invalidateLookup g) p
  apply of_modify
  · intro s p
    exact heach _ (s.modifyLayout l (·.memoize n r)) p
  · intro s
    unfold Store.memoize
    rw [invalidateEach_eq]
    rfl

theorem resolveAnew (a : ActivationId) (n : Name) : Apart i (Store.resolveAnew a n) := by
  unfold Store.resolveAnew
  apply get_bind
  · intro s s' h
    have hbound := h.part chainBound fun _ _ => rfl
    rw [h.walk, hbound, h.layout, h.layoutOf]
  · intro s
    dsimp only
    cases s.walk n s.chainBound a with
    | none => exact of_pure _
    | some found =>
        rcases found with ⟨f, path⟩
        refine bind (of_modifyGet (fun _ _ => rfl) (fun _ _ => rfl) fun _ => rfl) fun g => ?_
        exact bind (recordWalk n path) fun _ => bind (memoize _ n _) fun _ => of_pure _

theorem resolve (a : ActivationId) (n : Name) : Apart i (Store.resolve a n) := by
  unfold Store.resolve
  apply get_bind
  · intro s s' h
    rw [h.layout, h.layoutOf, h.resultValid]
  · intro s
    cases (s.layout (s.layoutOf a)).memo? n with
    | none => exact resolveAnew a n
    | some r =>
        dsimp only
        split
        · exact of_pure _
        · exact resolveAnew a n

/-- **A read site cannot see what calls keep.** -/
theorem cachedRead (c : CacheId) (a : ActivationId) : Apart i (Store.cachedRead c a) := by
  have hdynamic : ∀ n, Apart i (do return (← get).lookupDynamic a n) := fun n =>
    get_bind (fun h => by rw [h.lookupDynamic]) fun s => of_pure _
  unfold Store.cachedRead
  apply get_bind
  · intro s s' h
    rw [h.layoutOf, h.cache, h.remembered]
  · intro s
    dsimp only
    cases s.remembered c (s.layoutOf a) with
    | value v => exact of_pure _
    | unbound => exact of_pure _
    | noInformation =>
        refine bind (resolve a _) fun result => ?_
        cases result with
        | none => exact hdynamic _
        | some r =>
            refine get_bind (fun h => by rw [h.readResult]) fun s₁ => ?_
            refine bind (of_modify (fun _ _ => rfl) fun _ => rfl) fun _ => ?_
            cases s₁.readResult r with
            | value v => exact of_pure _
            | unbound => exact of_pure _
            | noInformation => exact hdynamic _

end Apart

end Store

end ScopeCall
