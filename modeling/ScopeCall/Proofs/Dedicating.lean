import Mathlib.Algebra.BigOperators.Group.Finset.Piecewise
import ScopeCall.Proofs.Accounting

/-!
# `ScopeCall.Proofs.Dedicating` — bodies are copied once for each node, and calls are counted once

A closure may want a copy of its body for each node that caches it. The copy is made by the first call that is run
through the node, and all calls through the node run it from then on; calls that are matched anew run the shared
body, as do all calls of closures that do not want copies. Each body counts the calls that come to it. Over a whole
program, the copies of a closure come to the number of its nodes that calls have been run through, and the counts of
its bodies come to the number of times that one of them has been entered.

## Contents
- **Cached callees.** `Store.dispatchAt?`, and what changes it.
- **Copies.** `Store.Split`: which nodes have copies.
- **Stages of a call.** `Store.Upholds`.
- **Counts.** `Account.Tallied`, step by step.
- **Totals.** `copies_made_once`.
-/

namespace ScopeCall

namespace Store

variable {s s₁ s₂ : Store} {i : SiteId} {id : NodeId} {n : Node} {demand : CallerDemand} {c : CallableId}
  {d : Dispatch} {t : TargetId} {q : SiteId × NodeId} {ran ran₁ ran₂ : List (SiteId × NodeId)}

/-! ## Cached callees -/

/-- The callee that a node caches. -/
def dispatchAt? (s : Store) (q : SiteId × NodeId) : Option Dispatch :=
  (s.site q.1).nodes[q.2.index]?.bind Chain.dispatchOf?

theorem Runs.dispatchAt? (h : s.Runs i id n demand) : s.dispatchAt? (i, id) = Chain.dispatchOf? n := by
  unfold Store.dispatchAt?
  rw [h.node]
  rfl

theorem exists_runs_of_dispatchAt? (h : s.dispatchAt? q = some d) :
    ∃ n, s.Runs q.1 q.2 n d.demand ∧ Chain.dispatchOf? n = some d := by
  obtain ⟨n, hn, hd⟩ := Option.bind_eq_some_iff.1 h
  exact ⟨n, ⟨hn, Node.demand?_of_dispatch hd⟩, hd⟩

theorem dispatchAt?_congr (h : ∀ n demand, s₁.Runs q.1 q.2 n demand ↔ s.Runs q.1 q.2 n demand) :
    s₁.dispatchAt? q = s.dispatchAt? q := by
  refine Option.ext fun d => ⟨fun hd => ?_, fun hd => ?_⟩
  · obtain ⟨n, hn, heq⟩ := exists_runs_of_dispatchAt? hd
    exact (((h n d.demand).1 hn).dispatchAt?).trans heq
  · obtain ⟨n, hn, heq⟩ := exists_runs_of_dispatchAt? hd
    exact (((h n d.demand).2 hn).dispatchAt?).trans heq

theorem Aloof.dispatchAt? (h : s.Aloof s₁) (q : SiteId × NodeId) : s₁.dispatchAt? q = s.dispatchAt? q :=
  dispatchAt?_congr fun n demand => h.runs q.1 q.2 n demand

theorem Installs.dispatchAt? {needed : Bool} (h : Installs c needed i id n s s₁) (q : SiteId × NodeId) :
    s₁.dispatchAt? q = if q = (i, id) then Chain.dispatchOf? n else s.dispatchAt? q := by
  split
  · rename_i heq
    subst heq
    exact ((h.runs i id n _).2 (Or.inr ⟨rfl, rfl, rfl, rfl⟩)).dispatchAt?
  · rename_i hother
    refine dispatchAt?_congr fun n' demand => ?_
    rw [h.runs]
    exact ⟨fun hor => hor.resolve_right fun hnew => hother (Prod.ext hnew.1 hnew.2.1), Or.inl⟩

/-- What is installed caches its callee without a copy. -/
theorem Installs.dispatchAt?_cases {needed : Bool} (hs : Installs c needed i id n s s₁)
    (hd : s₁.dispatchAt? q = some d) : s.dispatchAt? q = some d ∨ q = (i, id) ∧ d.callable = c ∧ d.dedicated = none
      ∧ d.splitPending = (s.callable c).wantsDedicatedCopy := by
  rw [hs.dispatchAt?] at hd
  split at hd
  · rename_i hhere
    have hfresh := hs.fresh
    unfold Fresh at hfresh
    rw [hd] at hfresh
    exact Or.inr ⟨hhere, hfresh.1, hfresh.2.2.2, hfresh.2.2.1⟩
  · exact Or.inl hd

theorem dispatchAt?_dispatchTarget (hn : s.Runs i id n demand) (hd : Chain.dispatchOf? n = some d)
    (q : SiteId × NodeId) : ((Chain.dispatchTarget i id d).run s).2.dispatchAt? q
      = if q = (i, id) then some (Chain.taken s d) else s.dispatchAt? q := by
  have hruns : ∀ n' demand', ((Chain.dispatchTarget i id d).run s).2.Runs q.1 q.2 n' demand' ↔ _ :=
    fun n' demand' => Chain.runs_dispatchTarget hn hd
  split
  · rename_i heq
    subst heq
    exact (((hruns _ demand).2 ((if_pos ⟨rfl, rfl⟩).mpr ⟨rfl, rfl⟩)).dispatchAt?).trans
      (Chain.dispatchOf?_withDispatch hd)
  · rename_i hother
    refine dispatchAt?_congr fun n' demand' => ?_
    rw [hruns, if_neg fun h => hother (Prod.ext h.1 h.2)]

/-! ## Copies -/

/-- Whether nodes get copies of the body of a function: it has a body, and wants copies of it. -/
def splits (s : Store) (c : CallableId) : Bool :=
  (s.callable c).wantsDedicatedCopy && (s.callable c).target?.isSome

/-- The nodes of a function that calls have been run through. -/
def ranNodes (s : Store) (ran : List (SiteId × NodeId)) (c : CallableId) : Finset (SiteId × NodeId) :=
  ran.toFinset.filter fun q => (s.dispatchAt? q).any fun d => d.callable = c

theorem mem_ranNodes : q ∈ s.ranNodes ran c ↔ q ∈ ran ∧ ∃ d, s.dispatchAt? q = some d ∧ d.callable = c := by
  unfold ranNodes
  rw [Finset.mem_filter, List.mem_toFinset, Option.any_eq_true]
  simp only [decide_eq_true_eq]

/-- A cached callee that wants a copy gets it by the first call through its node. -/
structure CopiedOnce (s : Store) (ran : List (SiteId × NodeId)) (q : SiteId × NodeId) (d : Dispatch) : Prop where
  made : s.Allocated (.callable d.callable)
  pending : d.splitPending = true ↔ (s.callable d.callable).wantsDedicatedCopy = true ∧ q ∉ ran
  copied : d.dedicated.isSome = true ↔ s.splits d.callable = true ∧ q ∈ ran
  body : ∀ t, d.dedicated = some t → t.index < s.targets.size ∧ (s.target t).dedicated = true

/-- Each node has its own copy of the body, if its function wants that and calls have been run through the node.
    The copies that have been made of a body are those. Functions do not share bodies. -/
structure Split (ran : List (SiteId × NodeId)) (s : Store) : Prop where
  dispatches : ∀ q d, s.dispatchAt? q = some d → s.CopiedOnce ran q d
  once : ∀ q q' d d' t, s.dispatchAt? q = some d → s.dispatchAt? q' = some d' → d.dedicated = some t →
    d'.dedicated = some t → q' = q
  shared : ∀ c t, (s.callable c).target? = some t → t.index < s.targets.size ∧ (s.target t).dedicated = false
  apart : ∀ c c' t, (s.callable c).target? = some t → (s.callable c').target? = some t → c' = c
  taken : ∀ q ∈ ran, ∃ n demand, s.Runs q.1 q.2 n demand
  copies : ∀ c, (s.callable c).copies = if s.splits c then (s.ranNodes ran c).card else 0

/-- Functions keep their bodies and what they want, and bodies are copies or not as before. -/
structure KeepsBodies (s s' : Store) : Prop where
  callables : s.callables.size ≤ s'.callables.size
  wants : ∀ c, s.Allocated (.callable c) →
    (s'.callable c).wantsDedicatedCopy = (s.callable c).wantsDedicatedCopy
  body : ∀ c, s.Allocated (.callable c) → (s'.callable c).target? = (s.callable c).target?
  targets : s.targets.size ≤ s'.targets.size
  dedicated : ∀ t : TargetId, t.index < s.targets.size → (s'.target t).dedicated = (s.target t).dedicated

theorem KeepsBodies.of_eq (hcallables : s₁.callables = s.callables) (htargets : s₁.targets = s.targets) :
    s.KeepsBodies s₁ := by
  have hcallable : s₁.callable = s.callable := callable_congr hcallables
  have htarget : s₁.target = s.target := target_congr htargets
  exact ⟨hcallables ▸ le_rfl, fun c _ => by rw [hcallable], fun c _ => by rw [hcallable], htargets ▸ le_rfl,
    fun t _ => by rw [htarget]⟩

theorem KeepsBodies.trans (h : s.KeepsBodies s₁) (h' : s₁.KeepsBodies s₂) : s.KeepsBodies s₂ where
  callables := h.callables.trans h'.callables
  wants c hc := (h'.wants c (Nat.lt_of_lt_of_le hc h.callables)).trans (h.wants c hc)
  body c hc := (h'.body c (Nat.lt_of_lt_of_le hc h.callables)).trans (h.body c hc)
  targets := h.targets.trans h'.targets
  dedicated t ht := (h'.dedicated t (Nat.lt_of_lt_of_le ht h.targets)).trans (h.dedicated t ht)

theorem KeepsBodies.splits (h : s.KeepsBodies s₁) (hc : s.Allocated (.callable c)) : s₁.splits c = s.splits c := by
  unfold Store.splits
  rw [h.wants c hc, h.body c hc]

/-- So a copy stays one, and stays the only one. -/
theorem CopiedOnce.keep (h : s.CopiedOnce ran q d) (hs : s.KeepsBodies s₁) (hran : q ∈ ran₁ ↔ q ∈ ran) :
    s₁.CopiedOnce ran₁ q d where
  made := Nat.lt_of_lt_of_le h.made hs.callables
  pending := by
    rw [hs.wants _ h.made, hran]
    exact h.pending
  copied := by
    rw [hs.splits h.made, hran]
    exact h.copied
  body t ht := by
    obtain ⟨hmade, hdedicated⟩ := h.body t ht
    exact ⟨Nat.lt_of_lt_of_le hmade hs.targets, (hs.dedicated t hmade).trans hdedicated⟩

theorem ranNodes_congr (h : ∀ q ∈ ran, s₁.dispatchAt? q = s.dispatchAt? q) (c : CallableId) :
    s₁.ranNodes ran c = s.ranNodes ran c := by
  refine Finset.filter_congr fun q hq => ?_
  rw [h q (List.mem_toFinset.1 hq)]

/-- A function is made, with a body of its own if it is a closure. -/
inductive Makes (s : Store) : Store → Prop
  | intrinsic {s' : Store} {f : Callable} (hsites : s'.sites = s.sites) (hf : s'.callables = s.callables.push f)
      (hcopies : f.copies = 0) (hbody : f.target? = none) (htargets : s'.targets = s.targets) : Makes s s'
  | closure {s' : Store} {f : Callable} {t : CallTarget} (hsites : s'.sites = s.sites)
      (hf : s'.callables = s.callables.push f) (hcopies : f.copies = 0) (hbody : f.target? = some ⟨s.targets.size⟩)
      (htargets : s'.targets = s.targets.push t) (hshared : t.dedicated = false) (hcalls : t.calls = 0) : Makes s s'

theorem Makes.sites (h : s.Makes s₁) : s₁.sites = s.sites := by
  cases h <;> assumption

theorem Makes.callable (h : s.Makes s₁) : ∃ f : Callable, f.copies = 0 ∧ s₁.callables.size = s.callables.size + 1
    ∧ ∀ c, s₁.callable c = if c.index = s.callables.size then f else s.callable c := by
  cases h with
  | intrinsic _ hf hcopies | closure _ hf hcopies =>
      refine ⟨_, hcopies, by rw [hf, Array.size_push], fun c => ?_⟩
      unfold Store.callable
      rw [hf]
      exact Array.getD_push s.callables _ c.index

theorem Makes.body (h : s.Makes s₁) (ht : (s₁.callable c).target? = some t) : (s.callable c).target? = some t
    ∨ c.index = s.callables.size ∧ t = ⟨s.targets.size⟩ ∧ s.targets.size < s₁.targets.size
      ∧ (s₁.target t).dedicated = false := by
  unfold Store.callable at ht ⊢
  cases h with
  | intrinsic _ hf _ hbody =>
      rw [hf, Array.getD_push] at ht
      split at ht
      · cases hbody.symm.trans ht
      · exact Or.inl ht
  | closure _ hf _ hbody htargets hshared =>
      rw [hf, Array.getD_push] at ht
      split at ht
      · rename_i hc
        obtain rfl := Option.some.inj (hbody.symm.trans ht)
        refine Or.inr ⟨hc, rfl, ?_, ?_⟩
        · rw [htargets, Array.size_push]
          exact Nat.lt_succ_self _
        · unfold Store.target
          rw [htargets, Array.getD_push, if_pos rfl]
          exact hshared
      · exact Or.inl ht

theorem Makes.target (h : s.Makes s₁) (ht : t.index < s.targets.size) : s₁.target t = s.target t := by
  unfold Store.target
  cases h with
  | intrinsic _ _ _ _ htargets => rw [htargets]
  | closure _ _ _ _ htargets =>
      rw [htargets, Array.getD_push, if_neg (Nat.ne_of_lt ht)]

theorem Makes.keepsBodies (h : s.Makes s₁) : s.KeepsBodies s₁ := by
  obtain ⟨f, -, hsize, hcallable⟩ := h.callable
  have hold : ∀ c, s.Allocated (.callable c) → s₁.callable c = s.callable c :=
    fun c hc => (hcallable c).trans (if_neg (Nat.ne_of_lt hc))
  constructor
  case callables => exact hsize ▸ Nat.le_succ _
  case wants => exact fun c hc => by rw [hold c hc]
  case body => exact fun c hc => by rw [hold c hc]
  case targets =>
    cases h with
    | intrinsic _ _ _ _ htargets => rw [htargets]
    | closure _ _ _ _ htargets =>
        rw [htargets, Array.size_push]
        exact Nat.le_succ _
  case dedicated => exact fun t ht => by rw [h.target ht]

theorem dispatchAt?_of_sites (hsites : s₁.sites = s.sites) (q : SiteId × NodeId) :
    s₁.dispatchAt? q = s.dispatchAt? q :=
  dispatchAt?_congr fun _ _ => Runs.of_sites hsites

/-- A function without a body is no closure. -/
theorem allocated_of_target? (h : (s.callable c).target? = some t) : s.Allocated (.callable c) := by
  by_contra hnone
  unfold Store.callable at h
  rw [Array.getElem?_eq_none (Nat.le_of_not_lt hnone)] at h
  cases h

theorem taken_callable (s : Store) (d : Dispatch) : (Chain.taken s d).callable = d.callable := by
  unfold Chain.taken
  split <;> rfl

theorem taken_splitPending (s : Store) (d : Dispatch) : (Chain.taken s d).splitPending = false := by
  unfold Chain.taken
  split
  · rfl
  · exact Bool.eq_false_iff.2 ‹_›

theorem taken_dedicated (s : Store) (d : Dispatch) : (Chain.taken s d).dedicated
    = if d.splitPending then (s.callable d.callable).target?.map fun _ => ⟨s.targets.size⟩ else d.dedicated := by
  unfold Chain.taken
  split <;> rfl

/-- What a node runs is its copy of the body, once it has been taken, or else the shared body. -/
theorem dispatchTarget_answer (s : Store) (i : SiteId) (id : NodeId) (d : Dispatch) :
    ((Chain.dispatchTarget i id d).run s).1
      = ((Chain.taken s d).dedicated <|> (s.callable d.callable).target?) := by
  rw [taken_dedicated, dispatchTarget_run]
  split
  · rw [dedicatedCopy_run]
    cases ht : (s.callable d.callable).target? with
    | none => exact ht
    | some t => rfl
  · rfl

/-- A node is taken. Its function gets a copy of its body for the node, if that is still to be made. -/
structure Taken (q : SiteId × NodeId) (s s' : Store) : Prop extends s.KeepsBodies s' where
  dispatches : ∀ q', s'.dispatchAt? q'
    = if q' = q then (s.dispatchAt? q).map (Chain.taken s) else s.dispatchAt? q'
  runs : ∀ i id n demand, s.Runs i id n demand → ∃ n', s'.Runs i id n' demand
  bodies : ∀ c, (s'.callable c).wantsDedicatedCopy = (s.callable c).wantsDedicatedCopy
    ∧ (s'.callable c).target? = (s.callable c).target?
  copied : ∀ d, s.dispatchAt? q = some d → d.splitPending = true → (s.callable d.callable).target?.isSome →
    s.targets.size < s'.targets.size ∧ (s'.target ⟨s.targets.size⟩).dedicated = true
      ∧ (s'.callable d.callable).copies = (s.callable d.callable).copies + 1
  others : ∀ c, (∀ d, s.dispatchAt? q = some d → d.splitPending = true → d.callable ≠ c
    ∨ (s.callable c).target? = none) → (s'.callable c).copies = (s.callable c).copies
  calls : ∀ t, (s'.target t).calls = (s.target t).calls

namespace Taken

theorem splits (hs : Taken q s s₁) (c : CallableId) : s₁.splits c = s.splits c := by
  unfold Store.splits
  rw [(hs.bodies c).1, (hs.bodies c).2]

theorem here (hs : Taken q s s₁) (hd : s₁.dispatchAt? q = some d) :
    ∃ d₀, s.dispatchAt? q = some d₀ ∧ Chain.taken s d₀ = d := by
  rw [hs.dispatches, if_pos rfl] at hd
  exact Option.map_eq_some_iff.1 hd

theorem elsewhere (hs : Taken q s s₁) {q' : SiteId × NodeId} (hne : q' ≠ q) :
    s₁.dispatchAt? q' = s.dispatchAt? q' := (hs.dispatches q').trans (if_neg hne)

/-- A copy was there before, or is the one that the node that is taken has got. -/
theorem dedicated_cases (hs : Taken q s s₁) {q' : SiteId × NodeId} (hd : s₁.dispatchAt? q' = some d)
    (ht : d.dedicated = some t) :
    (∃ d₀, s.dispatchAt? q' = some d₀ ∧ d₀.dedicated = some t) ∨ q' = q ∧ t = ⟨s.targets.size⟩ := by
  by_cases hsame : q' = q
  · subst hsame
    obtain ⟨d₀, hd₀, rfl⟩ := hs.here hd
    rw [taken_dedicated] at ht
    split at ht
    · obtain ⟨_, -, rfl⟩ := Option.map_eq_some_iff.1 ht
      exact Or.inr ⟨rfl, rfl⟩
    · exact Or.inl ⟨d₀, hd₀, ht⟩
  · exact Or.inl ⟨d, (hs.elsewhere hsame).symm.trans hd, ht⟩

end Taken

theorem copies_copied (hc : s.Allocated (.callable c)) (t : TargetId) (c' : CallableId) :
    ((s.copied c t).callable c').copies = (s.callable c').copies + if c' = c then 1 else 0 := by
  have hget : (s.copied c t).callable c' = if c'.index = c.index ∧ c.index < s.callables.size
      then { s.callable c with copies := (s.callable c).copies + 1 } else s.callable c' :=
    Array.getD_modify s.callables c.index c'.index _
  rw [hget]
  by_cases hsame : c' = c
  · subst hsame
    rw [if_pos ⟨rfl, hc⟩, if_pos rfl]
  · rw [if_neg fun h => hsame (congrArg CallableId.mk h.1), if_neg hsame, Nat.add_zero]

theorem calls_copied (s : Store) (c : CallableId) (t t' : TargetId) :
    ((s.copied c t).target t').calls = (s.target t').calls := by
  rw [target_copied]
  split
  · rename_i hnew
    unfold Store.target
    rw [hnew, Array.getElem?_eq_none le_rfl]
    rfl
  · rfl

/-- A node whose copy is not pending, or never will be made, is taken as it is. -/
theorem Taken.of_eq (hcallables : s₁.callables = s.callables) (htargets : s₁.targets = s.targets)
    (hdispatches : ∀ q', s₁.dispatchAt? q'
      = if q' = q then (s.dispatchAt? q).map (Chain.taken s) else s.dispatchAt? q')
    (hruns : ∀ i id n demand, s.Runs i id n demand → ∃ n', s₁.Runs i id n' demand)
    (hnone : ∀ d, s.dispatchAt? q = some d → d.splitPending = true → (s.callable d.callable).target? = none) :
    Taken q s s₁ := by
  have hcallable : s₁.callable = s.callable := callable_congr hcallables
  have htarget : s₁.target = s.target := target_congr htargets
  refine ⟨.of_eq hcallables htargets, hdispatches, hruns, fun c => ?_, fun d hd hpending hsome => ?_, fun c _ => ?_,
    fun t => ?_⟩
  · rw [hcallable]
    exact ⟨rfl, rfl⟩
  · rw [hnone d hd hpending] at hsome
    cases hsome
  · rw [hcallable]
  · rw [htarget]

theorem bodies_copied (s : Store) (c : CallableId) (t : TargetId) (c' : CallableId) :
    ((s.copied c t).callable c').wantsDedicatedCopy = (s.callable c').wantsDedicatedCopy
      ∧ ((s.copied c t).callable c').target? = (s.callable c').target? :=
  ⟨(congrArg Callable.wantsDedicatedCopy (callable_copied s c c' t)).trans rfl,
    (congrArg Callable.target? (callable_copied s c c' t)).trans rfl⟩

theorem keepsBodies_copied (s : Store) (c : CallableId) (t : TargetId) : s.KeepsBodies (s.copied c t) where
  callables := (size_callables_copied s c t).ge
  wants c' _ := (bodies_copied s c t c').1
  body c' _ := (bodies_copied s c t c').2
  targets := (size_targets_copied s c t).ge.trans' (Nat.le_succ _)
  dedicated t' ht' :=
    congrArg CallTarget.dedicated ((target_copied s c t t').trans (if_neg (Nat.ne_of_lt ht')))

/-- A node whose copy is pending gets it where its function has a body. -/
theorem Taken.of_copied (hc : s.Allocated (.callable d.callable)) (hhere : s.dispatchAt? q = some d)
    (hpending : d.splitPending = true) (ht : (s.callable d.callable).target? = some t)
    (hcallables : s₁.callables = (s.copied d.callable t).callables)
    (htargets : s₁.targets = (s.copied d.callable t).targets)
    (hdispatches : ∀ q', s₁.dispatchAt? q'
      = if q' = q then (s.dispatchAt? q).map (Chain.taken s) else s.dispatchAt? q')
    (hruns : ∀ i id n demand, s.Runs i id n demand → ∃ n', s₁.Runs i id n' demand) : Taken q s s₁ := by
  have hcallable := callable_congr hcallables
  have htarget := target_congr htargets
  have hsize : s₁.targets.size = s.targets.size + 1 :=
    (congrArg Array.size htargets).trans (size_targets_copied s d.callable t)
  constructor
  case toKeepsBodies => exact (keepsBodies_copied s d.callable t).trans (.of_eq hcallables htargets)
  case dispatches => exact hdispatches
  case runs => exact hruns
  case bodies =>
    intro c
    rw [hcallable]
    exact bodies_copied s d.callable t c
  case calls =>
    intro t'
    rw [htarget]
    exact calls_copied s d.callable t t'
  case copied =>
    intro d' hd' _ _
    obtain rfl := Option.some.inj (hhere.symm.trans hd')
    rw [hsize, htarget, hcallable, target_copied, if_pos rfl, copies_copied hc, if_pos rfl]
    exact ⟨Nat.lt_succ_self _, rfl, rfl⟩
  case others =>
    intro c hother
    rw [hcallable, copies_copied hc, if_neg, Nat.add_zero]
    rintro rfl
    rcases hother d hhere hpending with hne | hnone
    · exact hne rfl
    · cases hnone.symm.trans ht

theorem taken_dispatchTarget (hn : s.Runs i id n demand) (hd : Chain.dispatchOf? n = some d)
    (hc : s.Allocated (.callable d.callable)) : Taken (i, id) s ((Chain.dispatchTarget i id d).run s).2 := by
  have hhere : s.dispatchAt? (i, id) = some d := hn.dispatchAt?.trans hd
  have hdispatches : ∀ q', ((Chain.dispatchTarget i id d).run s).2.dispatchAt? q'
      = if q' = (i, id) then (s.dispatchAt? (i, id)).map (Chain.taken s) else s.dispatchAt? q' := by
    intro q'
    rw [dispatchAt?_dispatchTarget hn hd, hhere]
    rfl
  have hruns : ∀ j id' n' demand', s.Runs j id' n' demand' →
      ∃ n'', ((Chain.dispatchTarget i id d).run s).2.Runs j id' n'' demand' := by
    intro j id' n' demand' hn'
    by_cases hsame : j = i ∧ id' = id
    · obtain ⟨rfl, rfl⟩ := hsame
      obtain ⟨rfl, rfl⟩ := hn.unique hn'
      exact ⟨_, (Chain.runs_dispatchTarget hn hd).2 ((if_pos ⟨rfl, rfl⟩).mpr ⟨rfl, rfl⟩)⟩
    · exact ⟨n', (Chain.runs_dispatchTarget hn hd).2 ((if_neg hsame).mpr hn')⟩
  rw [dispatchTarget_run] at hdispatches hruns ⊢
  cases hpending : d.splitPending with
  | false =>
      rw [hpending, if_neg Bool.false_ne_true] at hdispatches hruns
      rw [if_neg Bool.false_ne_true]
      refine .of_eq rfl rfl hdispatches hruns fun d' hd' hyes => ?_
      obtain rfl := Option.some.inj (hhere.symm.trans hd')
      cases hpending.symm.trans hyes
  | true =>
      rw [hpending, if_pos rfl, dedicatedCopy_run] at hdispatches hruns
      rw [if_pos rfl, dedicatedCopy_run]
      cases ht : (s.callable d.callable).target? with
      | none =>
          rw [ht] at hdispatches hruns
          refine .of_eq rfl rfl hdispatches hruns fun d' hd' _ => ?_
          obtain rfl := Option.some.inj (hhere.symm.trans hd')
          exact ht
      | some t =>
          rw [ht] at hdispatches hruns
          exact .of_copied hc hhere hpending ht rfl rfl hdispatches hruns

/-- The node that is taken has got its copy by then, if it is to have one. -/
theorem CopiedOnce.take (h : s.CopiedOnce ran q d) (hs : Taken q s s₁) (hd : s.dispatchAt? q = some d) :
    s₁.CopiedOnce (q :: ran) q (Chain.taken s d) := by
  obtain ⟨hmade, hpending, hcopied, hbody⟩ := h
  constructor
  case made =>
    rw [taken_callable]
    exact Nat.lt_of_lt_of_le hmade hs.callables
  case pending =>
    rw [taken_splitPending]
    exact ⟨fun hyes => absurd hyes Bool.false_ne_true, fun hyes => absurd List.mem_cons_self hyes.2⟩
  case copied =>
    rw [taken_callable, taken_dedicated, hs.splits, and_iff_left List.mem_cons_self]
    unfold splits at hcopied ⊢
    rw [Bool.and_eq_true] at hcopied ⊢
    split
    · rename_i hyes
      rw [Option.isSome_map]
      exact (and_iff_right (hpending.1 hyes).1).symm
    · rename_i hno
      rw [hcopied]
      refine and_iff_left_of_imp fun hsplits => ?_
      by_contra hran
      exact hno (hpending.2 ⟨hsplits.1, hran⟩)
  case body =>
    intro t ht
    rw [taken_dedicated] at ht
    split at ht
    · rename_i hyes
      obtain ⟨_, hsome, rfl⟩ := Option.map_eq_some_iff.1 ht
      have hcopy := hs.copied d hd hyes (hsome ▸ rfl)
      exact ⟨hcopy.1, hcopy.2.1⟩
    · obtain ⟨hlt, hflag⟩ := hbody t ht
      exact ⟨Nat.lt_of_lt_of_le hlt hs.targets, (hs.dedicated t hlt).trans hflag⟩

namespace Split

theorem new (names : List String) : (Store.new names).Split [] := by
  have hnone : ∀ q, (Store.new names).dispatchAt? q = none := by
    intro q
    cases hd : (Store.new names).dispatchAt? q with
    | none => rfl
    | some d =>
        obtain ⟨n, hn, -⟩ := exists_runs_of_dispatchAt? hd
        exact absurd hn.allocated (Nat.not_lt_zero _)
  constructor
  case dispatches => exact fun q d hd => absurd ((hnone q).symm.trans hd) (Option.some_ne_none d).symm
  case once => exact fun q _ d _ _ hd => absurd ((hnone q).symm.trans hd) (Option.some_ne_none d).symm
  case shared => exact fun c t ht => by cases ht
  case apart => exact fun c _ t ht => by cases ht
  case taken => exact fun q hq => absurd hq List.not_mem_nil
  case copies => exact fun c => rfl

/-- Copies stay as they are where nodes and functions do, and no body is made. -/
theorem carry (h : s.Split ran) (hd : ∀ q, s₁.dispatchAt? q = s.dispatchAt? q)
    (hruns : ∀ i id n demand, s.Runs i id n demand → s₁.Runs i id n demand) (hcallables : s₁.callables = s.callables)
    (hsize : s₁.targets.size = s.targets.size) (hdedicated : ∀ t, (s₁.target t).dedicated = (s.target t).dedicated) :
    s₁.Split ran := by
  have hcallable : s₁.callable = s.callable := callable_congr hcallables
  have hsplits : s₁.splits = s.splits := by
    unfold splits
    rw [hcallable]
  have hbodies : s.KeepsBodies s₁ :=
    ⟨hcallables ▸ le_rfl, fun c _ => by rw [hcallable], fun c _ => by rw [hcallable], hsize.ge, fun t _ => hdedicated t⟩
  constructor
  case dispatches => exact fun q d hq => (h.dispatches q d ((hd q).symm.trans hq)).keep hbodies Iff.rfl
  case once =>
    intro q q' d d' t hq hq'
    exact h.once q q' d d' t ((hd q).symm.trans hq) ((hd q').symm.trans hq')
  case shared =>
    intro c t ht
    rw [hsize, hdedicated]
    rw [hcallable] at ht
    exact h.shared c t ht
  case apart =>
    rw [hcallable]
    exact h.apart
  case taken =>
    intro q hq
    obtain ⟨n, demand, hn⟩ := h.taken q hq
    exact ⟨n, demand, hruns _ _ _ _ hn⟩
  case copies =>
    intro c
    rw [hcallable, hsplits, ranNodes_congr fun q _ => hd q]
    exact h.copies c

/-- A node that calls have never been run through has no copy yet. -/
theorem install {needed : Bool} (h : s.Split ran) (hs : Installs c needed i id n s s₁)
    (hc : s.Allocated (.callable c)) : s₁.Split ran := by
  have hcallable : s₁.callable = s.callable := callable_congr hs.callables
  have htarget : s₁.target = s.target := target_congr hs.targets
  have hsplits : s₁.splits = s.splits := by
    unfold splits
    rw [hcallable]
  -- The place was vacant, so no call has been run through it.
  have hnew : (i, id) ∉ ran := by
    intro hin
    obtain ⟨n', demand, hn⟩ := h.taken _ hin
    exact hs.vacant n' demand hn
  constructor
  case dispatches =>
    intro q d hd
    rcases hs.dispatchAt?_cases hd with hold | ⟨rfl, rfl, hnone, hpending⟩
    · exact (h.dispatches q d hold).keep (.of_eq hs.callables hs.targets) Iff.rfl
    · constructor
      case made =>
        unfold Allocated at hc ⊢
        rwa [hs.callables]
      case pending =>
        rw [hpending, hcallable]
        exact (and_iff_left hnew).symm
      case copied =>
        rw [hnone]
        exact ⟨fun hsome => absurd hsome Bool.false_ne_true, fun hran => absurd hran.2 hnew⟩
      case body =>
        intro t ht
        cases hnone.symm.trans ht
  case once =>
    intro q q' d d' t hd hd' ht ht'
    rcases hs.dispatchAt?_cases hd with hold | ⟨-, -, hnone, -⟩
    · rcases hs.dispatchAt?_cases hd' with hold' | ⟨-, -, hnone, -⟩
      · exact h.once q q' d d' t hold hold' ht ht'
      · cases hnone.symm.trans ht'
    · cases hnone.symm.trans ht
  case shared =>
    rw [hcallable, htarget, hs.targets]
    exact h.shared
  case apart =>
    rw [hcallable]
    exact h.apart
  case taken =>
    intro q hq
    obtain ⟨n', demand, hn⟩ := h.taken q hq
    exact ⟨n', demand, (hs.runs _ _ _ _).2 (Or.inl hn)⟩
  case copies =>
    intro c'
    have hnodes : s₁.ranNodes ran c' = s.ranNodes ran c' := by
      refine ranNodes_congr (fun q hq => ?_) c'
      rw [hs.dispatchAt?, if_neg]
      rintro rfl
      exact hnew hq
    rw [hcallable, hsplits, hnodes]
    exact h.copies c'

/-- A function that is made has no nodes yet. -/
theorem make (h : s.Split ran) (hs : s.Makes s₁) : s₁.Split ran := by
  have hd := dispatchAt?_of_sites hs.sites
  have hbodies := hs.keepsBodies
  obtain ⟨f, hcopies, hsize, hcallable⟩ := hs.callable
  constructor
  case dispatches => exact fun q d hq => (h.dispatches q d ((hd q).symm.trans hq)).keep hbodies Iff.rfl
  case once =>
    intro q q' d d' t hq hq'
    exact h.once q q' d d' t ((hd q).symm.trans hq) ((hd q').symm.trans hq')
  case shared =>
    intro c t ht
    rcases hs.body ht with hold | ⟨-, rfl, hlt, hshared⟩
    · obtain ⟨hmade, hshared⟩ := h.shared c t hold
      exact ⟨Nat.lt_of_lt_of_le hmade hbodies.targets, (hbodies.dedicated t hmade).trans hshared⟩
    · exact ⟨hlt, hshared⟩
  case apart =>
    intro c c' t ht ht'
    -- A body that is made is none of those there were.
    rcases hs.body ht with hold | ⟨hc, rfl, -⟩ <;> rcases hs.body ht' with hold' | ⟨hc', heq, -⟩
    · exact h.apart c c' t hold hold'
    · exact absurd (h.shared c t hold).1 (heq ▸ Nat.lt_irrefl _)
    · exact absurd (h.shared c' _ hold').1 (Nat.lt_irrefl _)
    · exact congrArg CallableId.mk (hc'.trans hc.symm)
  case taken =>
    intro q hq
    obtain ⟨n, demand, hn⟩ := h.taken q hq
    exact ⟨n, demand, (Runs.of_sites hs.sites).2 hn⟩
  case copies =>
    intro c
    rw [ranNodes_congr fun q _ => hd q]
    by_cases hc : c.index = s.callables.size
    · -- No node caches the new function yet.
      have hnone : s.ranNodes ran c = ∅ := by
        refine Finset.eq_empty_of_forall_notMem fun q hin => ?_
        obtain ⟨-, d, hq, rfl⟩ := mem_ranNodes.1 hin
        exact absurd hc (Nat.ne_of_lt (h.dispatches q d hq).made)
      rw [hcallable, if_pos hc, hcopies, hnone, Finset.card_empty, ite_self]
    · have hsplits : s₁.splits c = s.splits c := by
        unfold splits
        rw [hcallable, if_neg hc]
      rw [hsplits, hcallable, if_neg hc]
      exact h.copies c

/-- The node of a call is among those of its function that calls have been run through. -/
theorem mem_ranNodes_take (hs : Taken q s s₁) {q' : SiteId × NodeId} : q' ∈ s₁.ranNodes (q :: ran) c
    ↔ (q' = q ∨ q' ∈ ran) ∧ ∃ d, s.dispatchAt? q' = some d ∧ d.callable = c := by
  rw [mem_ranNodes, List.mem_cons]
  refine and_congr_right' ?_
  rw [hs.dispatches]
  split
  · rename_i hsame
    subst hsame
    constructor
    · rintro ⟨d, hd, rfl⟩
      obtain ⟨d₀, hd₀, rfl⟩ := Option.map_eq_some_iff.1 hd
      exact ⟨d₀, hd₀, (taken_callable s d₀).symm⟩
    · rintro ⟨d, hd, rfl⟩
      exact ⟨_, Option.map_eq_some_iff.2 ⟨d, hd, rfl⟩, taken_callable s d⟩
  · exact Iff.rfl

/-- The copies of a body come to its nodes that calls have been run through. -/
theorem copies_take (h : s.Split ran) (hs : Taken q s s₁) (c : CallableId) :
    (s₁.callable c).copies = if s.splits c then (s₁.ranNodes (q :: ran) c).card else 0 := by
  have hcopies := h.copies c
  by_cases hd : ∃ d, s.dispatchAt? q = some d ∧ d.callable = c
  · obtain ⟨d, hd, rfl⟩ := hd
    have hpending := (h.dispatches q d hd).pending
    have hnodes : s₁.ranNodes (q :: ran) d.callable = insert q (s.ranNodes ran d.callable) := by
      ext q'
      rw [mem_ranNodes_take hs, Finset.mem_insert, mem_ranNodes]
      constructor
      · rintro ⟨rfl | hran, hfor⟩
        · exact Or.inl rfl
        · exact Or.inr ⟨hran, hfor⟩
      · rintro (rfl | ⟨hran, hfor⟩)
        · exact ⟨Or.inl rfl, d, hd, rfl⟩
        · exact ⟨Or.inr hran, hfor⟩
    -- A copy is made by the first call through the node, if ever.
    by_cases hnew : s.splits d.callable = true ∧ q ∉ ran
    · obtain ⟨hsplits, hran⟩ := hnew
      have hboth := hsplits
      unfold splits at hboth
      rw [Bool.and_eq_true] at hboth
      rw [if_pos hsplits] at hcopies ⊢
      rw [(hs.copied d hd (hpending.2 ⟨hboth.1, hran⟩) hboth.2).2.2, hcopies, hnodes,
        Finset.card_insert_of_notMem fun hin => hran (mem_ranNodes.1 hin).1]
    · have hsame : (s₁.callable d.callable).copies = (s.callable d.callable).copies := by
        refine hs.others d.callable fun d' hd' hyes => Or.inr ?_
        obtain rfl := Option.some.inj (hd.symm.trans hd')
        obtain ⟨hwants, hran⟩ := hpending.1 hyes
        have hno : s.splits d.callable ≠ true := fun hsplits => hnew ⟨hsplits, hran⟩
        unfold splits at hno
        rw [hwants, Bool.true_and] at hno
        exact Option.not_isSome_iff_eq_none.1 hno
      rw [hsame, hcopies]
      split
      · rename_i hsplits
        have hran : q ∈ ran := by
          by_contra hran
          exact hnew ⟨hsplits, hran⟩
        rw [hnodes, Finset.insert_eq_of_mem (mem_ranNodes.2 ⟨hran, d, hd, rfl⟩)]
      · rfl
  · have hnodes : s₁.ranNodes (q :: ran) c = s.ranNodes ran c := by
      ext q'
      rw [mem_ranNodes_take hs, mem_ranNodes]
      refine and_congr_left fun hfor => or_iff_right ?_
      rintro rfl
      exact hd hfor
    have hsame := hs.others c fun d' hd' _ => Or.inl fun heq => hd ⟨d', hd', heq⟩
    rw [hsame, hnodes, hcopies]

/-- A call is run through a node: from then on the node has its copy, if it is to have one. -/
theorem take (h : s.Split ran) (hs : Taken q s s₁) (hq : ∃ n demand, s.Runs q.1 q.2 n demand) :
    s₁.Split (q :: ran) := by
  constructor
  case dispatches =>
    intro q' d hd
    by_cases hsame : q' = q
    · subst hsame
      obtain ⟨d₀, hd₀, rfl⟩ := hs.here hd
      exact (h.dispatches q' d₀ hd₀).take hs hd₀
    · refine (h.dispatches q' d ((hs.elsewhere hsame).symm.trans hd)).keep hs.toKeepsBodies ?_
      rw [List.mem_cons]
      exact or_iff_right hsame
  case once =>
    intro q₁ q₂ d₁ d₂ t hd₁ hd₂ ht₁ ht₂
    -- The copy that is made is none of the bodies there were, so no other node has it.
    rcases hs.dedicated_cases hd₁ ht₁ with ⟨d, hd, ht⟩ | ⟨rfl, rfl⟩ <;>
      rcases hs.dedicated_cases hd₂ ht₂ with ⟨d', hd', ht'⟩ | ⟨rfl, heq⟩
    · exact h.once q₁ q₂ d d' t hd hd' ht ht'
    · exact absurd ((h.dispatches q₁ d hd).body t ht).1 (heq ▸ Nat.lt_irrefl _)
    · exact absurd ((h.dispatches q₂ d' hd').body _ ht').1 (Nat.lt_irrefl _)
    · rfl
  case shared =>
    intro c t ht
    obtain ⟨hlt, hflag⟩ := h.shared c t ((hs.bodies c).2.symm.trans ht)
    exact ⟨Nat.lt_of_lt_of_le hlt hs.targets, (hs.dedicated t hlt).trans hflag⟩
  case apart =>
    intro c c' t ht ht'
    exact h.apart c c' t ((hs.bodies c).2.symm.trans ht) ((hs.bodies c').2.symm.trans ht')
  case taken =>
    intro q' hq'
    have hbefore : ∃ n demand, s.Runs q'.1 q'.2 n demand := by
      rcases List.mem_cons.1 hq' with rfl | hq'
      · exact hq
      · exact h.taken q' hq'
    obtain ⟨n, demand, hn⟩ := hbefore
    obtain ⟨n', hn'⟩ := hs.runs _ _ n demand hn
    exact ⟨n', demand, hn'⟩
  case copies =>
    intro c
    rw [hs.splits]
    exact h.copies_take hs c

end Split

/-! ## Stages of a call -/

/-- Copies stay right, and so do the counts of all bodies. Nodes that calls have been run through do not change. -/
structure Upholds (ran ran' : List (SiteId × NodeId)) (s s' : Store) : Prop extends s.KeepsBodies s' where
  split : s'.Split ran'
  dispatches : ∀ q ∈ ran, s'.dispatchAt? q = s.dispatchAt? q
  calls : ∀ t, (s'.target t).calls = (s.target t).calls

theorem Upholds.trans (h : Upholds ran ran₁ s s₁) (h' : Upholds ran₁ ran₂ s₁ s₂) (hsub : ran ⊆ ran₁) :
    Upholds ran ran₂ s s₂ where
  toKeepsBodies := h.toKeepsBodies.trans h'.toKeepsBodies
  split := h'.split
  dispatches q hq := (h'.dispatches q (hsub hq)).trans (h.dispatches q hq)
  calls t := (h'.calls t).trans (h.calls t)

theorem Split.aloof (h : s.Split ran) (hs : s.Aloof s₁) : Upholds ran ran s s₁ := by
  have htarget : s₁.target = s.target := target_congr hs.targets
  exact { toKeepsBodies := .of_eq hs.callables hs.targets
          split := h.carry hs.dispatchAt? (fun i id n demand => (hs.runs i id n demand).2) hs.callables
            (congrArg Array.size hs.targets) fun t => by rw [htarget]
          dispatches := fun q _ => hs.dispatchAt? q
          calls := fun t => by rw [htarget] }

/-- Where sites, functions and bodies are the same, so is all that concerns copies. -/
theorem Split.same (h : s.Split ran) (hsites : s₁.sites = s.sites) (hcallables : s₁.callables = s.callables)
    (htargets : s₁.targets = s.targets) : Upholds ran ran s s₁ := by
  have htarget : s₁.target = s.target := target_congr htargets
  exact { toKeepsBodies := .of_eq hcallables htargets
          split := h.carry (dispatchAt?_of_sites hsites) (fun _ _ _ _ => (Runs.of_sites hsites).2) hcallables
            (congrArg Array.size htargets) fun t => by rw [htarget]
          dispatches := fun q _ => dispatchAt?_of_sites hsites q
          calls := fun t => by rw [htarget] }

theorem Split.furthers (h : s.Split ran) (hs : s.Furthers c s₁) (hc : s.Allocated (.callable c)) :
    Upholds ran ran s s₁ := by
  induction hs with
  | refl => exact h.aloof (KeepsCalls.refl s).calm.toAloof
  | tail hbefore hstep ih =>
      refine ih.trans ?_ (List.Subset.refl _)
      cases hstep with
      | calm hcalm => exact ih.split.aloof hcalm.toAloof
      | install hinstalls =>
          rename_i s₂ s₃ needed i id n
          have htarget : s₃.target = s₂.target := target_congr hinstalls.targets
          refine { toKeepsBodies := .of_eq hinstalls.callables hinstalls.targets
                   split := ih.split.install hinstalls (Nat.lt_of_lt_of_le hc ih.callables)
                   dispatches := fun q hq => ?_
                   calls := fun t => by rw [htarget] }
          rw [hinstalls.dispatchAt?, if_neg]
          rintro rfl
          obtain ⟨n', demand, hn⟩ := ih.split.taken _ hq
          exact hinstalls.vacant n' demand hn

/-- A call that takes its node is run through it. What it runs is the copy of the node, or else the shared body. -/
theorem Split.takes {p : Chain.Prepared} (h : s.Split ran) (ht : Chain.Takes i id p s s₁) :
    Upholds ran ((i, id) :: ran) s s₁
      ∧ (∀ d, s₁.dispatchAt? (i, id) = some d → d.callable = p.callable)
      ∧ p.target = ((s₁.dispatchAt? (i, id)).bind (·.dedicated) <|> (s₁.callable p.callable).target?) := by
  have htaken : ∀ {u : Store}, Taken (i, id) s u → (∃ n demand, s.Runs i id n demand) →
      Upholds ran ((i, id) :: ran) s u := by
    intro u hu hn
    refine ⟨hu.toKeepsBodies, h.take hu hn, fun q hq => ?_, hu.calls⟩
    rw [hu.dispatches]
    split
    · rename_i hsame
      subst hsame
      cases hd : s.dispatchAt? (i, id) with
      | none => rfl
      | some d =>
          have hno : d.splitPending ≠ true := fun hyes => ((h.dispatches _ d hd).pending.1 hyes).2 hq
          exact congrArg some (if_neg hno)
    · rfl
  cases ht with
  | anew hn hend hp =>
      have hnone : s.dispatchAt? (i, id) = none := hn.dispatchAt?.trans hend
      refine ⟨htaken (.of_eq rfl rfl (fun q' => ?_) (fun _ _ n _ hn => ⟨n, hn⟩) fun d hd => ?_) ⟨_, _, hn⟩,
        fun d hd => ?_, ?_⟩
      · split
        · rename_i hsame
          rw [hsame, hnone]
          rfl
        · rfl
      · cases hnone.symm.trans hd
      · cases hnone.symm.trans hd
      · rw [hnone]
        exact hp
  | cached hn hend hc hrun =>
      rename_i n d
      have hd : s.dispatchAt? (i, id) = some d := hn.dispatchAt?.trans hend
      have hupholds := htaken (taken_dispatchTarget hn hend (h.dispatches _ d hd).made) ⟨_, _, hn⟩
      have hafter := dispatchAt?_dispatchTarget hn hend (i, id)
      have hbody := (taken_dispatchTarget hn hend (h.dispatches _ d hd).made).bodies d.callable
      have htarget := dispatchTarget_answer s i id d
      rw [hrun] at hupholds hafter hbody htarget
      rw [if_pos rfl] at hafter
      refine ⟨hupholds, fun d' hd' => ?_, ?_⟩
      · obtain rfl := Option.some.inj (hafter.symm.trans hd')
        rw [taken_callable]
        exact hc
      · rw [hafter, ← hc, hbody.2]
        exact htarget

theorem Makes.calls (h : s.Makes s₁) (t : TargetId) : (s₁.target t).calls = (s.target t).calls := by
  unfold Store.target
  cases h with
  | intrinsic _ _ _ _ htargets => rw [htargets]
  | closure _ _ _ _ htargets _ hcalls =>
      rw [htargets, Array.getD_push]
      split
      · rename_i hnew
        rw [hcalls, hnew, Array.getElem?_eq_none le_rfl]
        rfl
      · rfl

theorem Split.makes (h : s.Split ran) (hs : s.Makes s₁) : Upholds ran ran s s₁ :=
  ⟨hs.keepsBodies, h.make hs, fun q _ => dispatchAt?_of_sites hs.sites q, hs.calls⟩

/-! ## Counts -/

/-- A call that has come to a body: it has been run through its node, which is for its callee or for any function,
    and the body is the copy of the node, or else the shared one. -/
structure Places (ran : List (SiteId × NodeId)) (s : Store) (sv : Service) : Prop where
  taken : (sv.site, sv.node) ∈ ran
  closure : (s.callable sv.invocation.callable).target?.isSome = true
  callee : ∀ d, s.dispatchAt? (sv.site, sv.node) = some d → d.callable = sv.invocation.callable
  target : ((s.dispatchAt? (sv.site, sv.node)).bind (·.dedicated) <|> (s.callable sv.invocation.callable).target?)
    = some sv.target

variable {sv : Service}

theorem Places.upheld (h : s.Places ran sv) (hs : Upholds ran ran₁ s s₁) (hsub : ran ⊆ ran₁) :
    s₁.Places ran₁ sv := by
  obtain ⟨t, ht⟩ := Option.isSome_iff_exists.1 h.closure
  have hbody := hs.body _ (allocated_of_target? ht)
  have hdispatch := hs.dispatches _ h.taken
  constructor
  case taken => exact hsub h.taken
  case closure => exact (congrArg Option.isSome hbody).trans h.closure
  case callee => exact fun d hd => h.callee d (hdispatch.symm.trans hd)
  case target =>
    rw [hdispatch, hbody]
    exact h.target

/-- The body of a call is the copy of its node, or the body that its function shares. -/
theorem Places.target_cases (h : s.Places ran sv) :
    (∃ d, s.dispatchAt? (sv.site, sv.node) = some d ∧ d.callable = sv.invocation.callable
        ∧ d.dedicated = some sv.target)
      ∨ (s.callable sv.invocation.callable).target? = some sv.target
        ∧ ∀ d, s.dispatchAt? (sv.site, sv.node) = some d → d.dedicated = none := by
  have htarget := h.target
  cases hd : s.dispatchAt? (sv.site, sv.node) with
  | none =>
      rw [hd] at htarget
      exact Or.inr ⟨htarget, fun d hd => by cases hd⟩
  | some d =>
      have hcallee := h.callee d hd
      rw [hd] at htarget
      cases hcopy : d.dedicated with
      | none =>
          have hbind : ((some d).bind fun d => d.dedicated) = none := hcopy
          rw [hbind] at htarget
          refine Or.inr ⟨htarget, fun d' hd' => ?_⟩
          obtain rfl := Option.some.inj hd'
          exact hcopy
      | some t =>
          have hbind : ((some d).bind fun d => d.dedicated) = some t := hcopy
          rw [hbind] at htarget
          obtain rfl := Option.some.inj htarget
          exact Or.inl ⟨d, rfl, hcallee, hcopy⟩

theorem Places.target_lt (h : s.Places ran sv) (hs : s.Split ran) : sv.target.index < s.targets.size := by
  rcases h.target_cases with ⟨d, hd, -, hcopy⟩ | ⟨hshared, -⟩
  · exact ((hs.dispatches _ d hd).body _ hcopy).1
  · exact (hs.shared _ _ hshared).1

end Store

namespace Account

open Store

variable {a a' : Account} {i : SiteId} {caller : ActivationId}

/-- Copies are right, bodies have counted the calls that have come to them, and the calls are in place. -/
structure Tallied (a : Account) : Prop where
  split : a.store.Split a.ran
  calls : ∀ t, (a.store.target t).calls = a.served.countP (·.target = t)
  placed : ∀ sv ∈ a.served, a.store.Places a.ran sv

theorem tallied_new (names : List String) : (Account.new names).Tallied :=
  ⟨.new names, fun _ => rfl, fun _ h => absurd h List.not_mem_nil⟩

theorem Tallied.uphold (ha : a.Tallied) {ran : List (SiteId × NodeId)} {s : Store}
    (hs : Upholds a.ran ran a.store s) (hsub : a.ran ⊆ ran) : Tallied { a with store := s, ran := ran } where
  split := hs.split
  calls t := (hs.calls t).trans (ha.calls t)
  placed sv hsv := (ha.placed sv hsv).upheld hs hsub

/-- A body is entered, and counts it. -/
theorem Tallied.enter (ha : a.Tallied) {sv : Service} (hsv : a.store.Places a.ran sv) : Tallied
    { a with
      store := a.store.modifyTarget sv.target fun t => { t with calls := t.calls + 1 }
      running := sv :: a.running
      served := sv :: a.served } := by
  have hlt := hsv.target_lt ha.split
  have htarget : ∀ t, (a.store.modifyTarget sv.target fun t => { t with calls := t.calls + 1 }).target t
      = if t.index = sv.target.index ∧ sv.target.index < a.store.targets.size
        then { a.store.target sv.target with calls := (a.store.target sv.target).calls + 1 }
        else a.store.target t := fun t => Array.getD_modify a.store.targets sv.target.index t.index _
  -- Only the count of the body changes, and copies do not depend on it.
  have hsplit : (a.store.modifyTarget sv.target fun t => { t with calls := t.calls + 1 }).Split a.ran := by
    refine ha.split.carry (fun _ => rfl) (fun _ _ _ _ hn => ⟨hn.node, hn.demand⟩) rfl Array.size_modify fun t => ?_
    rw [htarget]
    split
    · rename_i hsame
      rw [show t = sv.target from congrArg TargetId.mk hsame.1]
    · rfl
  have hkeep : ∀ sv', a.store.Places a.ran sv' →
      (a.store.modifyTarget sv.target fun t => { t with calls := t.calls + 1 }).Places a.ran sv' :=
    fun sv' h => ⟨h.taken, h.closure, h.callee, h.target⟩
  constructor
  case split => exact hsplit
  case calls =>
    intro t
    rw [htarget, List.countP_cons]
    by_cases hsame : sv.target = t
    · subst hsame
      rw [if_pos ⟨rfl, hlt⟩, if_pos (decide_eq_true rfl), ← ha.calls]
    · rw [if_neg fun h => hsame (congrArg TargetId.mk h.1).symm, if_neg (by simpa using hsame), ← ha.calls,
        Nat.add_zero]
  case placed => exact List.forall_mem_cons.2 ⟨hkeep sv hsv, fun sv' hsv' => hkeep sv' (ha.placed sv' hsv')⟩

theorem Tallied.call (ha : a.Tallied) (h : Called i caller a a') : a'.Tallied := by
  cases h with
  | failed hc h => exact ha.uphold (ha.split.furthers h hc) (List.Subset.refl _)
  | idle h => exact ha.uphold (ha.split.aloof h.calm.toAloof) (List.Subset.refl _)
  | ran hc h ht hs =>
      have hbefore := ha.split.furthers h hc
      have htaken := hbefore.trans (hbefore.split.takes ht).1 (List.Subset.refl _)
      exact ha.uphold (htaken.trans (htaken.split.aloof hs.calm.toAloof) (List.subset_cons_self _ _))
        (List.subset_cons_self _ _)
  | entered hc h ht hs hkind hcallable hcaller =>
      rename_i c s₁ s₂ s p id l e shared inv
      have hbefore := ha.split.furthers h hc
      obtain ⟨htakes, hcallee, htarget⟩ := hbefore.split.takes ht
      have htaken := hbefore.trans htakes (List.Subset.refl _)
      have hafter := htaken.split.aloof hs.calm.toAloof
      have hbody : (s₂.callable p.callable).target? = some shared := by
        unfold Callable.target?
        rw [hkind]
      have hplaced : s₂.Places ((i, id) :: a.ran) ⟨i, id, caller, p.target.getD shared, inv⟩ := by
        constructor
        case taken => exact List.mem_cons_self
        case closure => exact hcallable.symm ▸ congrArg Option.isSome hbody
        case callee => exact fun d hd => (hcallee d hd).trans hcallable.symm
        case target =>
          rw [hcallable, ← htarget]
          rw [htarget, hbody]
          cases (s₂.dispatchAt? (i, id)).bind (·.dedicated) <;> rfl
      exact (ha.uphold (htaken.trans hafter (List.subset_cons_self _ _)) (List.subset_cons_self _ _)).enter
        (hplaced.upheld hafter (List.Subset.refl _))

theorem makes_newIntrinsic (s : Store) (spec : CallableSpec) (body : BodyId) :
    s.Makes ((newIntrinsic spec body).run s).2 :=
  .intrinsic (f := spec.build (.intrinsic body)) rfl rfl rfl rfl rfl

/-- A step keeps all of it, whatever it is. -/
theorem Tallied.step (ha : a.Tallied) (h : a.Step a') : a'.Tallied := by
  cases h with
  | call getters host callee hi _ hcallee => exact ha.call (call_called a getters host _ callee hi hcallee)
  | ask hsv =>
      rename_i sv
      have hsame : Upholds a.ran a.ran a.store (a.ask sv).store := by
        unfold Account.ask
        cases sv.invocation.caller <;> exact ha.split.same rfl rfl rfl
      exact ⟨hsame.split, (ha.uphold hsame (List.Subset.refl _)).calls, (ha.uphold hsame (List.Subset.refl _)).placed⟩
  | leave => exact ⟨ha.split, ha.calls, ha.placed⟩
  | operate op =>
      exact ha.uphold (ha.split.aloof (keepsCalls_perform a.store op).calm.toAloof) (List.Subset.refl _)
  | close spec enclosing body =>
      have hbefore := ha.split.aloof (keepsCalls_enclosed a.store spec enclosing).calm.toAloof
      rw [newClosure_run]
      refine ha.uphold (hbefore.trans (hbefore.split.makes ?_) (List.Subset.refl _)) (List.Subset.refl _)
      generalize a.store.enclosed spec enclosing = s
      exact .closure (t := { body, dedicated := false })
        (f := spec.build (.closure ⟨a.store.layouts.size⟩ enclosing ⟨s.targets.size⟩)) rfl rfl rfl rfl rfl rfl rfl
  | closeIntrinsic spec body =>
      exact ha.uphold (ha.split.makes (makes_newIntrinsic a.store spec body)) (List.Subset.refl _)
  | beyond h => exact ha.uphold (ha.split.aloof h.aloof) (List.Subset.refl _)

theorem Tallied.run (ha : a.Tallied) (h : Run a a') : a'.Tallied := by
  induction h with
  | refl => exact ha
  | tail _ hstep ih => exact ih.step hstep

end Account

/-! ## Totals -/

namespace Store

variable {s : Store} {ran : List (SiteId × NodeId)} {c : CallableId} {t : TargetId}

/-- The copies of its body that the nodes of a function have. -/
def dedicatedTargets (s : Store) (ran : List (SiteId × NodeId)) (c : CallableId) : Finset TargetId :=
  (s.ranNodes ran c).biUnion fun q => ((s.dispatchAt? q).bind (·.dedicated)).toFinset

theorem mem_dedicatedTargets : t ∈ s.dedicatedTargets ran c
    ↔ ∃ q ∈ ran, ∃ d, s.dispatchAt? q = some d ∧ d.callable = c ∧ d.dedicated = some t := by
  unfold dedicatedTargets
  simp only [Finset.mem_biUnion, mem_ranNodes, Option.mem_toFinset, Option.mem_def, Option.bind_eq_some_iff]
  constructor
  · rintro ⟨q, ⟨hq, d, hd, hc⟩, d', hd', ht⟩
    obtain rfl := Option.some.inj (hd.symm.trans hd')
    exact ⟨q, hq, d, hd, hc, ht⟩
  · rintro ⟨q, hq, d, hd, hc, ht⟩
    exact ⟨q, ⟨hq, d, hd, hc⟩, d, hd, ht⟩

/-- No copy is lost, and none is shared. -/
theorem Split.card_dedicatedTargets (h : s.Split ran) (c : CallableId) :
    (s.dedicatedTargets ran c).card = (s.callable c).copies := by
  rw [h.copies]
  split
  · rename_i hsplits
    -- Every such node has one copy, and no two nodes have the same.
    have hcopy : ∀ q ∈ s.ranNodes ran c, ∃ d t, s.dispatchAt? q = some d ∧ d.callable = c ∧ d.dedicated = some t := by
      intro q hq
      obtain ⟨hran, d, hd, rfl⟩ := mem_ranNodes.1 hq
      obtain ⟨t, ht⟩ := Option.isSome_iff_exists.1 ((h.dispatches q d hd).copied.2 ⟨hsplits, hran⟩)
      exact ⟨d, t, hd, rfl, ht⟩
    unfold dedicatedTargets
    rw [Finset.card_biUnion]
    · refine (Finset.sum_congr rfl fun q hq => ?_).trans (Finset.sum_const_nat fun _ _ => rfl) |>.trans (mul_one _)
      obtain ⟨d, t, hd, -, ht⟩ := hcopy q hq
      rw [hd, Option.bind_some, ht]
      rfl
    · intro q hq q' hq' hne
      refine Finset.disjoint_left.2 fun t ht ht' => hne ?_
      rw [Option.mem_toFinset, Option.mem_def, Option.bind_eq_some_iff] at ht ht'
      obtain ⟨d, hd, ht⟩ := ht
      obtain ⟨d', hd', ht'⟩ := ht'
      exact (h.once q q' d d' t hd hd' ht ht').symm
  · rename_i hno
    refine Finset.card_eq_zero.2 (Finset.eq_empty_of_forall_notMem fun t ht => ?_)
    obtain ⟨q, -, d, hd, rfl, hcopy⟩ := mem_dedicatedTargets.1 ht
    exact hno ((h.dispatches q d hd).copied.1 (congrArg Option.isSome hcopy)).1

end Store

namespace Account

open Store

variable {a : Account}

/-- Calls through the node of a callee run the node's copy just if the callee wants copies. -/
theorem Tallied.target_of_dispatch (ha : a.Tallied) {sv : Service} (hsv : sv ∈ a.served) {d : Dispatch}
    (hd : a.store.dispatchAt? (sv.site, sv.node) = some d) : if (a.store.callable d.callable).wantsDedicatedCopy
      then d.dedicated = some sv.target ∧ (a.store.target sv.target).dedicated = true
      else (a.store.callable d.callable).target? = some sv.target := by
  have hplaced := ha.placed sv hsv
  obtain ⟨-, -, hcopied, hbody⟩ := ha.split.dispatches _ d hd
  have hclosure := hplaced.closure
  rw [← hplaced.callee d hd] at hclosure
  unfold splits at hcopied
  rw [hclosure, Bool.and_true, and_iff_left hplaced.taken] at hcopied
  rcases hplaced.target_cases with ⟨d', hd', -, hcopy⟩ | ⟨hshared, hnone⟩
  · obtain rfl := Option.some.inj (hd.symm.trans hd')
    rw [if_pos (hcopied.1 (congrArg Option.isSome hcopy))]
    exact ⟨hcopy, (hbody _ hcopy).2⟩
  · have hno : ¬ (a.store.callable d.callable).wantsDedicatedCopy = true := by
      rw [← hcopied, hnone d hd]
      exact Bool.false_ne_true
    rw [if_neg hno, hplaced.callee d hd]
    exact hshared

/-- A body of a function is its shared body, or one of its copies. -/
theorem Tallied.target_iff (ha : a.Tallied) {c : CallableId} {shared : TargetId}
    (hshared : (a.store.callable c).target? = some shared) {sv : Service} (hsv : sv ∈ a.served) :
    sv.invocation.callable = c ↔ sv.target ∈ insert shared (a.store.dedicatedTargets a.ran c) := by
  have hplaced := ha.placed sv hsv
  rw [Finset.mem_insert, mem_dedicatedTargets]
  rcases hplaced.target_cases with ⟨d, hd, hcallee, hcopy⟩ | ⟨hbody, -⟩
  · obtain ⟨-, hflag⟩ := (ha.split.dispatches _ d hd).body _ hcopy
    constructor
    · rintro rfl
      exact Or.inr ⟨_, hplaced.taken, d, hd, hcallee, hcopy⟩
    · rintro (rfl | ⟨q, -, d', hd', hfor, hcopy'⟩)
      · cases hflag.symm.trans (ha.split.shared c _ hshared).2
      · obtain rfl := ha.split.once _ q d d' _ hd hd' hcopy hcopy'
        obtain rfl := Option.some.inj (hd.symm.trans hd')
        exact hcallee.symm.trans hfor
  · constructor
    · rintro rfl
      exact Or.inl (Option.some.inj (hbody.symm.trans hshared))
    · rintro (rfl | ⟨q, -, d, hd, -, hcopy⟩)
      · exact ha.split.apart c _ _ hshared hbody
      · cases ((ha.split.dispatches q d hd).body _ hcopy).2.symm.trans (ha.split.shared _ _ hbody).2

theorem sum_countP_target (served : List Service) (targets : Finset TargetId) :
    ∑ t ∈ targets, served.countP (·.target = t) = served.countP (·.target ∈ targets) := by
  induction served with
  | nil => exact Finset.sum_const_zero
  | cons sv served ih =>
      simp only [List.countP_cons, Finset.sum_add_distrib, ih, decide_eq_true_eq, Finset.sum_ite_eq]

/-- **Calls are counted once**: the counts of the bodies of a closure come to the number of times that one of them
    has been entered. -/
theorem Tallied.total (ha : a.Tallied) {c : CallableId} {shared : TargetId}
    (hshared : (a.store.callable c).target? = some shared) :
    (a.store.target shared).calls + ∑ t ∈ a.store.dedicatedTargets a.ran c, (a.store.target t).calls
      = a.served.countP (·.invocation.callable = c) := by
  have hnew : shared ∉ a.store.dedicatedTargets a.ran c := by
    intro hin
    obtain ⟨q, -, d, hd, -, hcopy⟩ := mem_dedicatedTargets.1 hin
    cases ((ha.split.dispatches q d hd).body _ hcopy).2.symm.trans (ha.split.shared c _ hshared).2
  rw [← Finset.sum_insert (f := fun t => (a.store.target t).calls) hnew]
  refine (Finset.sum_congr rfl fun t _ => ha.calls t).trans ((sum_countP_target _ _).trans ?_)
  refine List.countP_congr fun sv hsv => ?_
  rw [decide_eq_true_eq, decide_eq_true_eq]
  exact (ha.target_iff hshared hsv).symm

/-- A module, and a function in it that wants copies of its body. -/
def oneSplitting : Store :=
  ((newClosure { name := ⟨3⟩, label := some "f", wantsDedicatedCopy := true } ⟨0⟩ ⟨0⟩).run.run
    ([Operation.newLayout "g" .singleton {}, .newScope ⟨0⟩ none 0].foldl Operation.perform (.new ["g", "f"]))).2

/-- Two sites call the function. -/
def twoCallers : Store :=
  { oneSplitting with
    sites := #[{ callee := .value (.function ⟨0⟩), args := [] }, { callee := .value (.function ⟨0⟩), args := [] }] }

/-- The function has been called through one site. -/
def calledHere : Account := { Account.new [] with store := twoCallers }.call Chain.zeroGetters () ⟨0⟩ ⟨0⟩ none

/-- The function has been called through the same site again. -/
def calledAgain : Account := calledHere.call Chain.zeroGetters () ⟨0⟩ ⟨0⟩ none

/-- The function has been called through the other site. -/
def calledThrice : Account := calledAgain.call Chain.zeroGetters () ⟨1⟩ ⟨0⟩ none

theorem run_calledThrice : Run (.new ["g", "f"]) calledThrice := by
  have hmade : Run (.new ["g", "f"]) { Account.new ["g", "f"] with store := oneSplitting } :=
    (Run.operations (.new ["g", "f"]) [.newLayout "g" .singleton {}, .newScope ⟨0⟩ none 0]).tail
      (.close { name := ⟨3⟩, label := some "f", wantsDedicatedCopy := true } ⟨0⟩ ⟨0⟩)
  have hsited : Run (.new ["g", "f"]) { Account.new [] with store := twoCallers } :=
    (hmade.tail (.beyond (Store.foreign_newSite _ rfl) fun _ h => absurd h List.not_mem_nil)).tail
      (.beyond (Store.foreign_newSite _ rfl) fun _ h => absurd h List.not_mem_nil)
  have hhere : Run (.new ["g", "f"]) calledHere :=
    Run.call hsited Chain.zeroGetters () ⟨0⟩ ⟨0⟩ none ⟨0⟩ (by decide +kernel)
  have hagain : Run (.new ["g", "f"]) calledAgain :=
    Run.call hhere Chain.zeroGetters () ⟨0⟩ ⟨0⟩ none ⟨0⟩ (by decide +kernel)
  exact Run.call hagain Chain.zeroGetters () ⟨1⟩ ⟨0⟩ none ⟨0⟩ (by decide +kernel)

end Account

end ScopeCall
