import Mathlib.Data.Finset.Card
import ScopeCall.Evaluation
import ScopeCall.Proofs.Runs
import ScopeCall.Proofs.Walking

/-!
# `ScopeCall.Proofs.Reading` — reading through results, and along the scopes

A trace goes through the layouts; the dynamic walk goes through the activations, which are nested the
same way. At each activation alive the slot holds what its layout says, so both come to the same value.

## Contents
- **One activation.** What a layout says, and what a slot of its live activation holds.
- **Traces and the dynamic walk.** `says_of_trace`.
- **Read sites.** `cachedRead_eq`.
- **Lexical runs.** Steps that keep the nesting as it is: `LexicalStep`, and what they preserve.
- **Reading is walking.** `read_is_dynamic`.
-/

namespace ScopeCall

namespace Store

variable {s s₁ s₂ : Store} {alive : LayoutId → Prop} {a : ActivationId} {n : Name}

/-! ## One activation -/

/-- Where a layout passes a walk on, its live activation binds nothing. -/
theorem readName_of_passOn (hs : s.Sound) (ha : s.Live (.activation a))
    (hview : s.view (s.layoutOf a) n = .passOn) : s.readName a n = none := by
  unfold view at hview
  rw [readName, slotOf?]
  cases hslot : (s.layout (s.layoutOf a)).slotIndex? n with
  | none => rfl
  | some i =>
      simp only [hslot] at hview
      cases ht : s.token (s.layoutOf a) i with
      | none =>
          simp only [ht] at hview
          split at hview <;> simp at hview
      | some t =>
          simp only [ht] at hview
          split at hview
          · simp at hview
          · rename_i hnone
            have hagree := hs.bindings.agree a i t ha ht not_false
            have hvalue : (s.stable t).value = none := by simpa using hnone
            rw [hvalue] at hagree
            rw [Option.bind_some, read, readIn, hagree]
            rfl

/-- Where a layout ends a walk with a stable value, its live activation holds that value. -/
theorem readName_of_stable (hs : s.Sound) (ha : s.Live (.activation a)) {t : StableId}
    (hview : s.view (s.layoutOf a) n = .found (.stable t)) :
    s.readName a n = (s.stable t).value ∧ (s.stable t).value.isSome = true := by
  unfold view at hview
  rw [readName, slotOf?]
  cases hslot : (s.layout (s.layoutOf a)).slotIndex? n with
  | none => simp [hslot] at hview
  | some i =>
      simp only [hslot] at hview
      cases hi : s.token (s.layoutOf a) i with
      | none =>
          simp only [hi] at hview
          split at hview <;> simp at hview
      | some u =>
          simp only [hi] at hview
          split at hview
          · rename_i hsome
            obtain rfl : u = t := by simpa using hview
            refine ⟨?_, hsome⟩
            rw [Option.bind_some, read, readIn, hs.bindings.agree a i u ha hi not_false]
            cases (s.stable u).value <;> rfl
          · simp at hview

/-- Where a layout ends a walk at a slot of an activation, that activation is its live one. -/
theorem readName_of_boundAt (hs : s.Sound)
    (hclaimed : ∀ l b, (s.layout l).singleton = some b → (s.layout l).kind.isSingleton = true)
    (ha : s.Live (.activation a)) {b : ActivationId} {i : Nat}
    (hview : s.view (s.layoutOf a) n = .found (.boundAt b i)) :
    b = a ∧ s.readName a n = s.read a i := by
  unfold view at hview
  rw [readName, slotOf?]
  cases hslot : (s.layout (s.layoutOf a)).slotIndex? n with
  | none => simp [hslot] at hview
  | some j =>
      simp only [hslot] at hview
      cases hj : s.token (s.layoutOf a) j with
      | some u =>
          simp only [hj] at hview
          split at hview <;> simp at hview
      | none =>
          simp only [hj] at hview
          split at hview
          · rename_i c hsingle
            obtain ⟨rfl, rfl⟩ : c = b ∧ j = i := by simpa using hview
            have hown := hs.bindings.unique a ha (hclaimed _ c hsingle)
            exact ⟨Option.some.inj (hsingle.symm.trans hown), rfl⟩
          · simp at hview

/-! ## Traces and the dynamic walk -/

/-- What a finding has to say about the value of a name: a slot of an activation decides it only while
    something is stored there. -/
def Says (s : Store) : Finding → Option Value → Prop
  | .stable t, v    => v = (s.stable t).value ∧ v.isSome = true
  | .boundAt b i, v => ∀ w, s.read b i = some w → v = some w
  | .unbound, v     => v = none

open Classical in
/-- How many activations enclose one. -/
noncomputable def height (s : Store) (a : ActivationId) : Nat :=
  ((Finset.range s.activations.size).filter fun i => s.Inside a ⟨i⟩).card

theorem height_le (s : Store) (a : ActivationId) : s.height a ≤ s.activations.size := by
  classical
  unfold height
  exact (Finset.card_filter_le _ _).trans (Finset.card_range _).le

/-- A step outwards leaves fewer to come, since no scope is nested in itself. -/
theorem height_lt (hs : s.WellFormed) (hacyclic : ∀ a, ¬ s.Inside a a) {e : ActivationId}
    (ha : s.Allocated (.activation a)) (he : (s.activation a).enclosing = some e) :
    s.height e < s.height a := by
  classical
  have hout : s.Inside a e := .single he
  unfold height
  apply Finset.card_lt_card
  rw [Finset.ssubset_iff_of_subset]
  · refine ⟨e.index, ?_, ?_⟩
    · exact Finset.mem_filter.2 ⟨Finset.mem_range.2 (hs.activation_enclosing ha he), hout⟩
    · intro hin
      exact hacyclic e (Finset.mem_filter.1 hin).2
  · intro i hi
    obtain ⟨hi, hin⟩ := Finset.mem_filter.1 hi
    exact Finset.mem_filter.2 ⟨hi, hout.trans hin⟩

/-- From each scope of `T` the walk for a name ends there with the finding, or goes on to a scope of
    `T`. -/
def Tends (s : Store) (n : Name) (f : Finding) (T : ActivationId → Prop) : Prop :=
  ∀ b, s.Live (.activation b) → T b → s.view (s.layoutOf b) n = .found f
    ∨ s.view (s.layoutOf b) n = .passOn
      ∧ match (s.activation b).enclosing with
        | none   => f = .unbound
        | some e => T e

/-- No layout ends a walk by saying that the name is unbound. -/
theorem view_ne_unbound {l : LayoutId} : s.view l n ≠ .found .unbound := by
  intro hv
  unfold view at hv
  split at hv
  · simp at hv
  · split at hv
    · split at hv <;> simp at hv
    · split at hv <;> simp at hv

/-- Where a layout ends a walk, the dynamic walk from its live activation ends too. -/
theorem says_of_view (hs : s.Sound)
    (hclaimed : ∀ l b, (s.layout l).singleton = some b → (s.layout l).kind.isSingleton = true)
    (ha : s.Live (.activation a)) {f : Finding} (hv : s.view (s.layoutOf a) n = .found f) (fuel : Nat) :
    s.Says f (s.lookupFrom n (fuel + 1) (some a)) := by
  rw [lookupFrom]
  cases f with
  | stable t =>
      obtain ⟨hread, hsome⟩ := readName_of_stable hs ha hv
      obtain ⟨v, hvalue⟩ := Option.isSome_iff_exists.1 hsome
      rw [hread, hvalue]
      exact ⟨hvalue.symm, rfl⟩
  | boundAt b i =>
      obtain ⟨rfl, hread⟩ := readName_of_boundAt hs hclaimed ha hv
      intro w hw
      rw [hread, hw]
  | unbound => exact absurd hv view_ne_unbound

/-- **Where walks tend to a finding, the dynamic walk comes to it.** -/
theorem says_of_tends (hs : s.Sound)
    (hclaimed : ∀ l b, (s.layout l).singleton = some b → (s.layout l).kind.isSingleton = true)
    (hacyclic : ∀ b, ¬ s.Inside b b) {f : Finding} {T : ActivationId → Prop} (h : s.Tends n f T)
    (ha : s.Live (.activation a)) (hT : T a) {fuel : Nat} (hfuel : s.height a < fuel) :
    s.Says f (s.lookupFrom n fuel (some a)) := by
  induction fuel generalizing a with
  | zero => omega
  | succ fuel ih =>
      rcases h a ha hT with hv | ⟨hv, hnext⟩
      · exact says_of_view hs hclaimed ha hv fuel
      · rw [lookupFrom, readName_of_passOn hs ha hv]
        cases he : (s.activation a).enclosing with
        | none =>
            rw [he] at hnext
            subst hnext
            cases fuel <;> rfl
        | some e =>
            rw [he] at hnext
            have hlower := height_lt hs.wellFormed hacyclic (ha.allocated hs.wellFormed) he
            exact ih (ha.enclosing hs.wellFormed he) hnext (by omega)

/-- Where scopes are nested as their layouts are, walks tend to the end of a trace. The trace may be told
    by another store in which every layout says the same. -/
theorem tends_of_trace (hs : s.Sound) (hn : s.Nested) (hview : ∀ k, s₁.view k n = s.view k n)
    (henclosing : ∀ k, (s₁.layout k).enclosing = (s.layout k).enclosing) (f : Finding) :
    s.Tends n f fun b => s₁.Trace (fun _ _ => False) n (s.layoutOf b) f := by
  intro b hb ht
  have hlink := hn.along b (hs.current hb)
  rw [← henclosing] at hlink
  cases ht with
  | pending _ hp => exact hp.elim
  | stop _ hv => exact Or.inl ((hview _).symm.trans hv)
  | root _ hv he =>
      refine Or.inr ⟨(hview _).symm.trans hv, ?_⟩
      rw [he] at hlink
      rw [Option.map_eq_none_iff.1 hlink.symm]
  | up _ hv he ht =>
      refine Or.inr ⟨(hview _).symm.trans hv, ?_⟩
      rw [he] at hlink
      obtain ⟨e, hbe, hlayout⟩ := Option.map_eq_some_iff.1 hlink.symm
      subst hlayout
      rw [hbe]
      exact ht

/-- **A trace comes to what the dynamic walk comes to.** -/
theorem says_of_trace (hs : s.Sound) (hn : s.Nested) (hview : ∀ k, s₁.view k n = s.view k n)
    (henclosing : ∀ k, (s₁.layout k).enclosing = (s.layout k).enclosing) {f : Finding}
    (ht : s₁.Trace (fun _ _ => False) n (s.layoutOf a) f) (ha : s.Live (.activation a)) {fuel : Nat}
    (hfuel : s.height a < fuel) : s.Says f (s.lookupFrom n fuel (some a)) :=
  says_of_tends hs hn.claimed hn.acyclic (tends_of_trace hs hn hview henclosing f) ha ht hfuel

/-! ## Read sites -/

/-- What a result says now, if anything, is the value of a name. -/
def Resolved.Agrees : Resolved → Option Value → Prop
  | .value v, o       => o = some v
  | .unbound, o       => o = none
  | .noInformation, _ => True

instance (r : Resolved) (o : Option Value) : Decidable (r.Agrees o) :=
  match r with
  | .value v       => inferInstanceAs (Decidable (o = some v))
  | .unbound       => inferInstanceAs (Decidable (o = none))
  | .noInformation => inferInstanceAs (Decidable True)

/-- What is read through a result agrees with what its finding says. -/
theorem agrees_readResult {r : LookupResult} {o : Option Value} (h : s.Says r.finding o) :
    (s.readResult r).Agrees o := by
  unfold readResult
  split
  · cases r with
    | stable t g =>
        obtain ⟨rfl, hsome⟩ := h
        obtain ⟨v, hv⟩ := Option.isSome_iff_exists.1 hsome
        simp only [hv]
        rfl
    | boundAt b i g =>
        cases hread : (s.upgradeActivation b).bind fun c => s.read c i with
        | none => simp only [hread]; trivial
        | some w =>
            obtain ⟨c, hc, hw⟩ := Option.bind_eq_some_iff.1 hread
            unfold upgradeActivation at hc
            obtain rfl : b = c := by
              split at hc
              · exact Option.some.inj hc
              · simp at hc
            simp only [hread]
            exact h w hw
    | unbound g => exact h
  · trivial

/-- Whatever is remembered for a name at the layout of an activation, there or at a read site, says from
    the activation what the dynamic walk finds, or nothing. -/
structure ReliableAt (s : Store) (a : ActivationId) (n : Name) : Prop where
  memo : ∀ r, (s.layout (s.layoutOf a)).memo? n = some r →
    (s.readResult r).Agrees (s.lookupDynamic a n)
  cached : ∀ c r, (s.cache c).name = n → (s.cache c).cached = some (s.layoutOf a, r) →
    (s.readResult r).Agrees (s.lookupDynamic a n)

/-- Whatever is remembered is reliable from each live activation of its layout. -/
def Reliable (s : Store) : Prop := ∀ a n, s.Live (.activation a) → s.ReliableAt a n

/-- One read site that may trust a wrong result is enough. -/
theorem not_reliable_of_cached {c : CacheId} {r : LookupResult} (ha : s.Live (.activation a))
    (hc : (s.cache c).cached = some (s.layoutOf a, r))
    (hwrong : ¬ (s.readResult r).Agrees (s.lookupDynamic a (s.cache c).name)) : ¬ s.Reliable := by
  intro h
  exact hwrong ((h a _ ha).cached c r rfl hc)

/-- A result that is not valid says nothing. -/
theorem agrees_of_valid {r : LookupResult} {o : Option Value}
    (h : s.resultValid r = true → (s.readResult r).Agrees o) : (s.readResult r).Agrees o := by
  by_cases hv : s.resultValid r = true
  · exact h hv
  · unfold readResult
    rw [if_neg hv]
    trivial

/-- **What is still remembered is reliable from where its trace leads to the dynamic walk.** -/
theorem Retraces.reliableAt (h : s.Retraces alive fun _ _ => False) (hs : s.WellFormed)
    (hc : s.Retains s₁)
    (hvalid : ∀ t, s.Allocated (.stable t) → s₁.stableValid t = true → s.stableValid t = true)
    (hal : alive (s₁.layoutOf a))
    (hread : ∀ r, (s₁.layout (s₁.layoutOf a)).memo? n = some r → s₁.resultValid r = true →
      s.Trace (fun _ _ => False) n (s₁.layoutOf a) r.finding →
        s₁.Says r.finding (s₁.lookupDynamic a n)) : s₁.ReliableAt a n := by
  have hmemo : ∀ r, (s₁.layout (s₁.layoutOf a)).memo? n = some r → s₁.resultValid r = true →
      s₁.Says r.finding (s₁.lookupDynamic a n) := fun r hr hv => by
    have hr₀ := hc.memo _ n r hr
    exact hread r hr hv (h.traced _ n r hal hr₀ (hc.resultValid h hs hvalid hr₀ hv))
  constructor
  · intro r hr
    apply agrees_of_valid
    intro hv
    exact agrees_readResult (hmemo r hr hv)
  · rintro c r rfl hr
    apply agrees_of_valid
    intro hv
    -- A valid result of a read site is the one that the layout remembers.
    have hguard := (Bool.and_eq_true_iff.1 (resultValid_eq s₁ r ▸ hv)).1
    exact agrees_readResult (hmemo r (hc.cached h hr hal hguard) hv)

/-- **Results that have traces can be relied on.** -/
theorem Retraces.reliable (h : s.Retraces alive fun _ _ => False) (hs : s.Sound)
    (halive : ∀ a, s.Live (.activation a) → alive (s.layoutOf a)) : s.Reliable := by
  intro a n ha
  refine h.reliableAt hs.wellFormed (.refl s) (fun _ _ => id) (halive a ha) fun r _ _ ht => ?_
  exact says_of_trace hs h.toNested (fun _ => rfl) (fun _ => rfl) ht ha
    (Nat.lt_succ_of_le (s.height_le a))

/-- A result that stands agrees with the dynamic walk from any live activation of its layout, as the
    walk goes in a store in which every layout says the same. -/
theorem Standing.speaks {r : LookupResult} (h : s₁.Standing (s.layoutOf a) n r)
    (hrem : s₁.Remembers alive fun _ _ => False) (hal : alive (s.layoutOf a)) (hs : s.Sound)
    (hn : s.Nested) (hview : ∀ k, s₁.view k n = s.view k n)
    (henclosing : ∀ k, (s₁.layout k).enclosing = (s.layout k).enclosing)
    (ha : s.Live (.activation a)) : s.Says r.finding (s.lookupDynamic a n) :=
  says_of_trace hs hn hview henclosing (hrem.traced _ n r hal h.memo h.valid) ha
    (Nat.lt_succ_of_le (s.height_le a))

theorem Says.same {f : Finding} {o : Option Value} (h : s.Says f o) (hsame : s.SameScopes s₁)
    (hstable : s₁.stable = s.stable) : s₁.Says f o := by
  cases f with
  | stable t =>
      rw [Says, hstable]
      exact h
  | boundAt b i =>
      intro w hw
      refine h w ?_
      rwa [read, readIn, content, activation, hsame.activations, hsame.contexts, ← activation,
        ← content, ← readIn, ← read] at hw
  | unbound => exact h

/-- What a read site remembers, if it may be trusted, agrees with the dynamic walk. -/
theorem Reliable.remembered (h : s.Reliable) (ha : s.Live (.activation a)) (c : CacheId) :
    (s.remembered c (s.layoutOf a)).Agrees (s.lookupDynamic a (s.cache c).name) := by
  unfold Store.remembered
  split
  · rename_i l r hcached
    split
    · rename_i hl
      subst hl
      exact (h a _ ha).cached c r rfl hcached
    · trivial
  · trivial

theorem answer_of_agrees {resolved : Resolved} (h : resolved.Agrees (s.lookupDynamic a n)) :
    s.answer a n resolved = s.lookupDynamic a n := by
  cases resolved with
  | value v => exact h.symm
  | unbound => exact h.symm
  | noInformation => rfl

/-- **A read site answers what the dynamic walk answers.** -/
theorem cachedRead_eq (h : s.Remembers alive fun _ _ => False) (hs : s.Sound)
    (halive : ∀ b, s.Live (.activation b) → alive (s.layoutOf b)) (ha : s.Live (.activation a))
    (c : CacheId) : ((cachedRead c a).run s).1 = s.lookupDynamic a (s.cache c).name := by
  have hkept := (h.reliable hs halive).remembered ha c
  rw [cachedRead_run]
  split
  · rename_i v hr
    rw [hr] at hkept
    exact hkept.symm
  · rename_i hr
    rw [hr] at hkept
    exact hkept.symm
  · obtain ⟨hrem, hsame, hstands⟩ := remembers_resolve h hs ha (s.cache c).name
    have hspares := (spares_resolve hs.wellFormed ha (s.cache c).name).1
    have hstable := funext hspares.stable
    have hview : ∀ k, ((resolve a (s.cache c).name).run s).2.view k (s.cache c).name
        = s.view k (s.cache c).name := fun k =>
      view_of_layout _ (hspares.slots k) (hspares.singleton k) hstable
    generalize (resolve a (s.cache c).name).run s = result at *
    rcases result with ⟨_ | r, s₁⟩
    · exact hsame.lookupDynamic a _
    · have hsame₂ : s.SameScopes (s₁.modifyCache c fun cache =>
          { cache with cached := some (s.layoutOf a, r) }) :=
        ⟨hsame.activations, hsame.slots, hsame.enclosing, hsame.contexts⟩
      have hspeaks := (hstands r rfl).speaks hrem (halive a ha) hs h.toNested hview hsame.enclosing ha
      have hagrees := agrees_readResult (hspeaks.same hsame hstable)
      rw [← hsame₂.lookupDynamic] at hagrees
      exact (answer_of_agrees hagrees).trans (hsame₂.lookupDynamic a _)

/-! ## Lexical runs -/

/-- Operations that leave scopes nested as they are, and no slot with a value per context. -/
def Operation.isLexical : Operation → Bool
  | .relink .. | .setEnclosing .. | .attach .. | .detachEnclosing _ => false
  | .writeInContext .. | .fanOutSlot .. | .fanOutAll .. | .cleanFanOut .. => false
  | _ => true

/-- Operations among these that neither make scopes or layouts nor link layouts: lookups, and changes of what
    scopes hold. -/
def Operation.isLocal : Operation → Bool
  | .newLayout .. | .newScope .. | .initializeEnclosing .. => false
  | op => op.isLexical

/-- A layout is alive as long as one that is linked to it. -/
def ParentsOutlive (s : Store) : Prop :=
  ∀ l p, (s.layout l).enclosing = some p → s.Live (.layout l) → s.Live (.layout p)

/-- One step of a program in which layouts are linked before they are used, and stay linked. -/
inductive LexicalStep (s : Store) : Store → Prop where
  | operate (op : Operation) (hop : op.isLexical = true) (h : ∀ r ∈ op.operands, r ∈ s.roots)
      (hsettles : s.Settles (op.perform s)) (houtlive : (op.perform s).ParentsOutlive) :
      LexicalStep s (op.perform s)
  | elsewhere {s' : Store} (h : s.Elsewhere s') (houtlive : s'.ParentsOutlive) : LexicalStep s s'

/-- Any number of lexical steps. -/
abbrev LexicalRun : Store → Store → Prop := Relation.ReflTransGen LexicalStep

/-- A store that a program can come to that keeps to lexical steps. -/
def Lexical (s : Store) : Prop := ∃ names, LexicalRun (.new names) s

theorem LexicalStep.step (h : s.LexicalStep s₁) : s.Step s₁ := by
  cases h with
  | operate op _ h _ _ => exact .operate op h
  | elsewhere h _ => exact .elsewhere h

theorem LexicalStep.settles (h : s.LexicalStep s₁) : s.Settles s₁ := by
  cases h with
  | operate op _ _ hsettles _ => exact hsettles
  | elsewhere h _ =>
      intro l _
      rw [layout, h.layouts, ← layout]

theorem LexicalStep.parentsOutlive (h : s.LexicalStep s₁) : s₁.ParentsOutlive := by
  cases h with
  | operate op _ _ _ houtlive => exact houtlive
  | elsewhere _ houtlive => exact houtlive

/-- The layouts alive. -/
abbrev aliveLayout (s : Store) (l : LayoutId) : Prop := s.Live (.layout l)

/-- What is remembered at layouts alive can be relied on. -/
abbrev Recalls (s : Store) : Prop := s.Remembers s.aliveLayout fun _ _ => False

/-- Before a step, the layouts alive after it may count as those alive. -/
theorem LexicalStep.foresee (h : s.LexicalStep s₁) (hs : s.Sound) (hrec : s.Recalls) :
    s.Remembers s₁.aliveLayout fun _ _ => False := by
  refine hrec.weaken (fun l => (h.step.progress hs).back l) fun l p hl hp => ?_
  have hsame := h.settles l (Or.inl (by simp [hp]))
  exact h.parentsOutlive l p (hsame.trans hp) hl

theorem WellFormed.of_acquire {rs : List Ref} (h : (s.acquire rs).WellFormed) : s.WellFormed := by
  refine ⟨fun r hr => h.roots r ?_, h.refs, h.weak⟩
  have hr : r ∈ s.stack ++ s.handles := hr
  show r ∈ s.stack ++ (rs ++ s.handles)
  simp only [List.mem_append] at hr ⊢
  exact hr.imp_right Or.inr

theorem Live.acquire {r : Ref} (h : s.Live r) (rs : List Ref) : (s.acquire rs).Live r := by
  obtain ⟨S, hS, hr⟩ := h
  refine ⟨S, fun q hq => (hS q hq).imp_left fun hroot => ?_, hr⟩
  simp only [roots, Store.acquire, List.mem_append] at hroot ⊢
  exact hroot.imp_right Or.inr

/-- Making an activation and holding it. -/
theorem recalls_newScope (hs : s.Sound) {l : LayoutId} {enclosing : Option ActivationId}
    {depth : Nat} (h : ∀ r ∈ (Operation.newScope l enclosing depth).operands, r ∈ s.roots)
    (hsettles : s.Settles ((Operation.newScope l enclosing depth).perform s))
    (hrec : s.Remembers ((Operation.newScope l enclosing depth).perform s).aliveLayout
      fun _ _ => False) : ((Operation.newScope l enclosing depth).perform s).Recalls := by
  simp only [Operation.operands, List.forall_mem_cons, List.forall_mem_map] at h
  have he : ∀ b, enclosing = some b → Ref.activation b ∈ s.roots := fun b hb => h.2 b (by simp [hb])
  obtain ⟨hadv, hready⟩ := advances_newScope hs h.1 he depth
  have hnew := remembers_newScope hrec hs h.1 he depth
  rw [Recalls, Operation.perform] at *
  generalize (Store.newScope l enclosing depth).run.run s = result at *
  rcases result with ⟨e | a, s₁⟩
  · exact hnew hsettles (fun _ => id) fun _ hl _ => hl
  · have ha := hready a rfl
    refine (hnew hsettles (fun _ hl => hl.acquire _) fun k hk _ => ?_).acquire
      (hadv.leads.wellFormed hs.wellFormed) _
    exact (live_of_live_acquire ha.refs hk).resolve_left Ref.noConfusion

/-- **Local operations keep what is remembered reliable**, at whatever layouts are alive in the end. -/
theorem remembers_local (hs : s.Sound) {op : Operation} (hop : op.isLocal = true)
    (h : ∀ r ∈ op.operands, r ∈ s.roots) (hrem : s.Remembers alive fun _ _ => False)
    (hlasting : (op.perform s).Lasting alive) : (op.perform s).Remembers alive fun _ _ => False := by
  have hwf := hs.wellFormed
  have hwf' := (progress_perform hs h).sound.wellFormed
  cases op with
  | newCache n => exact (remembers_newCache hrem hwf n).acquire hwf'.of_acquire _
  | findOrAddSlot l n => exact remembers_findOrAddSlot hrem hwf (hwf.roots _ (h _ List.mem_cons_self)) n hlasting
  | invalidateNames l names =>
      exact hrem.invalidateNames hwf (hwf.roots _ (h _ List.mem_cons_self)) (fun _ _ => False.elim)
        hlasting
  | invalidateAll l =>
      exact hrem.invalidateAll hwf (hwf.roots _ (h _ List.mem_cons_self)) (fun _ _ => False.elim)
        hlasting
  | define a n v | assignNonLocal a n v =>
      simp only [Operation.operands, List.forall_mem_cons] at h
      exact remembers_bindName hrem hs h.1 n h.2 _ hlasting
  | setActiveBinding a n g =>
      exact remembers_bindName hrem hs (h _ List.mem_cons_self) n (v := .active g)
        (by simp [Value.refs]) false hlasting
  | write a slot v nonLocal =>
      simp only [Operation.operands, List.forall_mem_cons] at h
      exact remembers_write hrem hs h.1 slot h.2 nonLocal hlasting
  | remove a n => exact remembers_remove hrem hs (h _ List.mem_cons_self) n hlasting
  | markIrregular a => exact remembers_markIrregular hrem hwf a
  | resolve a n =>
      exact (remembers_resolve hrem hs (live_of_mem_roots (h _ List.mem_cons_self)) n).1
  | cachedRead c a =>
      simp only [Operation.operands, List.forall_mem_cons] at h
      exact (remembers_cachedRead hrem hs (live_of_mem_roots h.2.1) c).1
  | registerContexts additional => exact hrem.same hwf rfl rfl rfl rfl rfl
  | enterContext context => exact hrem.same hwf rfl rfl rfl rfl rfl
  | leaveContext previous => exact hrem.same hwf rfl rfl rfl rfl rfl
  | newLayout | newScope | initializeEnclosing | relink | setEnclosing | attach | detachEnclosing
  | writeInContext | fanOutSlot | fanOutAll | cleanFanOut => exact absurd hop Bool.false_ne_true

/-- **Every lexical operation keeps what is remembered reliable.** -/
theorem recalls_perform (hs : s.Sound) {op : Operation} (hop : op.isLexical = true)
    (h : ∀ r ∈ op.operands, r ∈ s.roots) (hsettles : s.Settles (op.perform s))
    (hrec : s.Remembers (op.perform s).aliveLayout fun _ _ => False) : (op.perform s).Recalls := by
  have hwf := hs.wellFormed
  by_cases hlocal : op.isLocal = true
  · exact remembers_local hs hlocal h hrec fun _ hl _ => hl
  · cases op with
    | newLayout label kind policy =>
        have hwf' := (progress_perform hs h).sound.wellFormed
        exact (remembers_newLayout hrec hwf label kind policy).acquire hwf'.of_acquire _
    | newScope l enclosing depth => exact recalls_newScope hs h hsettles hrec
    | initializeEnclosing l parent =>
        obtain ⟨hl, hp⟩ := held_optional h
        exact remembers_initializeEnclosing hrec hs hl hp hsettles fun _ => id
    | _ => exact absurd hop hlocal

/-- What every lexical step preserves. -/
theorem LexicalStep.recalls (h : s.LexicalStep s₁) (hs : s.Sound) (hrec : s.Recalls) :
    s₁.Recalls := by
  have hforeseen := h.foresee hs hrec
  cases h with
  | operate op hop hin hsettles _ => exact recalls_perform hs hop hin hsettles hforeseen
  | elsewhere h _ =>
      exact hforeseen.same hs.wellFormed h.layouts h.activations h.stables h.lookups h.caches

/-- Nothing is remembered in a store with no objects. -/
theorem recalls_new (names : List String) : (Store.new names).Recalls := by
  have hlayout : ∀ l, (Store.new names).layout l = default := fun _ => rfl
  have hnested : (Store.new names).Nested := by
    refine ⟨fun a ha => absurd ha.allocated (Nat.not_lt_zero _), fun a hin => ?_, ?_, ?_, ?_⟩
    · obtain ⟨b, hb, -⟩ := Relation.TransGen.head'_iff.1 hin
      simp [activation, Store.new, default, instInhabitedActivation.default] at hb
    all_goals intros; simp_all [Store.new, default, instInhabitedLayout.default]
  refine ⟨⟨hnested, ?_, ?_, ?_, ?_⟩, ?_⟩
  all_goals intros; simp_all [Layout.memo?, cache, Store.new, default,
    instInhabitedLayout.default, instInhabitedLookupCache.default]

/-- What every lexical step preserves, a lexical run preserves. -/
theorem LexicalRun.recalls (h : LexicalRun s s₁) (hs : s.Sound) (hrec : s.Recalls) :
    s₁.Sound ∧ s₁.Recalls := by
  induction h with
  | refl => exact ⟨hs, hrec⟩
  | tail _ hstep ih => exact ⟨(hstep.step.progress ih.1).sound, hstep.recalls ih.1 ih.2⟩

/-! ## Checking a run -/

/-- Whether a step linked no layout that was linked or had an activation, and every parent is held. -/
def keepsNesting (s s' : Store) : Bool :=
  (List.range (max s.layouts.size s'.layouts.size)).all fun i =>
    let old := (s.layout ⟨i⟩).enclosing
    let new := (s'.layout ⟨i⟩).enclosing
    (new == old || old.isNone && (List.range s.activations.size).all fun j => s.layoutOf ⟨j⟩ ≠ ⟨i⟩)
      && new.all fun p => s'.roots.contains (.layout p)

/-- Whether operations are lexical, one after another. -/
def allLexical (s : Store) : List Operation → Bool
  | []        => true
  | op :: ops => op.isLexical && op.operands.all s.roots.contains && s.keepsNesting (op.perform s)
    && allLexical (op.perform s) ops

theorem nesting_of_keepsNesting (h : s.keepsNesting s₁ = true) : s.Settles s₁ ∧ s₁.ParentsOutlive := by
  have hbeyond : ∀ (s : Store) (l : LayoutId), s.layouts.size ≤ l.index →
      (s.layout l).enclosing = none := fun s l hl => by
    rw [layout, Array.getElem?_eq_none hl]
    rfl
  rw [keepsNesting, List.all_eq_true] at h
  have hcheck : ∀ l : LayoutId, l.index < max s.layouts.size s₁.layouts.size →
      ((s₁.layout l).enclosing = (s.layout l).enclosing ∨ (s.layout l).enclosing = none
        ∧ ∀ a, s.Allocated (.activation a) → s.layoutOf a ≠ l)
      ∧ ∀ p, (s₁.layout l).enclosing = some p → Ref.layout p ∈ s₁.roots := fun l hl => by
    have hl := h l.index (List.mem_range.2 hl)
    simp only [Bool.and_eq_true, Bool.or_eq_true, beq_iff_eq, Option.isNone_iff_eq_none,
      List.all_eq_true, List.mem_range, decide_eq_true_eq, Option.all_eq_true,
      List.contains_iff_mem] at hl
    exact ⟨hl.1.imp_right (And.imp_right fun ha a hlt => ha a.index hlt), hl.2⟩
  constructor
  · intro l hl
    by_cases hlt : l.index < max s.layouts.size s₁.layouts.size
    · refine (hcheck l hlt).1.resolve_right fun hnew => ?_
      obtain ⟨hnone, hfree⟩ := hnew
      rcases hl with hsome | ⟨a, ha, hal⟩
      · exact hsome hnone
      · exact hfree a ha hal
    · rw [hbeyond s l (by omega), hbeyond s₁ l (by omega)]
  · intro l p hp _
    by_cases hlt : l.index < max s.layouts.size s₁.layouts.size
    · exact live_of_mem_roots ((hcheck l hlt).2 p hp)
    · rw [hbeyond s₁ l (by omega)] at hp
      exact absurd hp (by simp)

theorem LexicalRun.of_allLexical {ops : List Operation} (h : s.allLexical ops = true) :
    LexicalRun s (ops.foldl Operation.perform s) := by
  induction ops generalizing s with
  | nil => exact .refl
  | cons op ops ih =>
      simp only [allLexical, Bool.and_eq_true, List.all_eq_true, List.contains_iff_mem] at h
      obtain ⟨⟨⟨hop, hin⟩, hkeeps⟩, hrest⟩ := h
      obtain ⟨hsettles, houtlive⟩ := nesting_of_keepsNesting hkeeps
      exact (ih hrest).head (.operate op hop hin hsettles houtlive)

/-! ## Reading is walking -/

/-- **Reading through a cache is walking the scopes.** In a store that a program with lexical scopes can
    come to, a read from a live activation answers what the dynamic walk finds, with an active binding
    run once, whatever was read or resolved before and from wherever; it leaves all bindings as they
    are. Every result that `resolve` answers is valid when it is answered. -/
theorem read_is_dynamic (h : Lexical s) {a : ActivationId} (ha : s.Live (.activation a)) :
    (∀ (σ : Type) (getters : Getters σ) (host : σ) (c : CacheId),
      (EvalM.read getters c a).run.run ⟨s, host⟩
        = match s.lookupDynamic a (s.cache c).name with
          | none   => (.ok none, ⟨((cachedRead c a).run s).2, host⟩)
          | some v => (some <$> EvalM.force getters v).run.run ⟨((cachedRead c a).run s).2, host⟩)
    ∧ (∀ c b m, ((cachedRead c a).run s).2.lookupDynamic b m = s.lookupDynamic b m)
    ∧ ∀ n r, ((resolve a n).run s).1 = some r → ((resolve a n).run s).2.resultValid r = true := by
  obtain ⟨names, hrun⟩ := h
  obtain ⟨hs, hrec⟩ := hrun.recalls (sound_new names) (recalls_new names)
  refine ⟨fun σ getters host c => ?_, fun c b m => ?_, fun n r hr => ?_⟩
  · have hread := cachedRead_eq hrec hs (fun _ hb => hb.layoutOf hs.wellFormed) ha c
    rw [← hread]
    have hstored : (EvalM.onStore (cachedRead c a)).run.run (⟨s, host⟩ : Machine σ)
        = (.ok ((cachedRead c a).run s).1, ⟨((cachedRead c a).run s).2, host⟩) := rfl
    unfold EvalM.read
    rw [ExceptT.run_bind, StateT.run_bind, hstored]
    cases ((cachedRead c a).run s).1 <;> rfl
  · exact (remembers_cachedRead hrec hs ha c).2.lookupDynamic b m
  · exact ((remembers_resolve hrec hs ha n).2.2 r hr).valid

/-- A function that reads a variable of the module around it: the read site found a value that has been
    replaced since. -/
theorem read_of_replaced :
    let ops : List Operation := [.newLayout "m" .singleton {}, .newScope ⟨0⟩ none 0,
      .define ⟨0⟩ ⟨2⟩ (.int 5), .newLayout "f" .function {}, .newScope ⟨1⟩ (some ⟨0⟩) 1,
      .newCache ⟨2⟩, .cachedRead ⟨0⟩ ⟨1⟩, .define ⟨0⟩ ⟨2⟩ (.int 6)]
    let s := ops.foldl Operation.perform (.new ["x"])
    Lexical s ∧ s.Live (.activation ⟨1⟩) ∧ ∀ getters : Getters Unit,
      ((EvalM.read getters ⟨0⟩ ⟨1⟩).run.run ⟨s, ()⟩).1 = .ok (some (.int 6)) := by
  intro ops s
  have hlexical : Lexical s := ⟨["x"], .of_allLexical (by decide +kernel)⟩
  have hlive : s.Live (.activation ⟨1⟩) := live_of_mem_roots (by decide +kernel)
  have hwalk : s.lookupDynamic ⟨1⟩ (s.cache ⟨0⟩).name = some (.int 6) := by decide +kernel
  refine ⟨hlexical, hlive, fun getters => ?_⟩
  rw [(read_is_dynamic hlexical hlive).1 Unit getters () ⟨0⟩, hwalk]
  rfl

end Store

end ScopeCall
