import ScopeCall.Proofs.Marking
import ScopeCall.Proofs.Restarting

/-!
# `ScopeCall.Proofs.Settling` — scopes that stay where they are

In most programs no scope is ever moved: a layout is linked when it is first entered, and keeps its link. Then it
can be told for good where a result belongs. Its guard is that of no other result, and what it found is bound in
the layout where its lookup started, or in one around that.

## Contents
- **Links.** `Store.LinkedIn`, by links to layouts dead or alive, and `Store.KeepsLinks`.
- **Files.** `Store.Anchored` results and `Store.Filed` stores.
- **Lookups.** `anchored_of_walk`: what a walk finds is anchored.
- **Runs.** `Store.SettledStep`, and what its steps keep: `Store.InOrder`.
-/

namespace ScopeCall

namespace Store

variable {s s₁ s₂ : Store} {l k p : LayoutId} {a b : ActivationId} {n : Name} {r : LookupResult}

/-! ## Links -/

/-- `k` is `l`, or linked to it by way of other layouts, dead or alive. -/
abbrev LinkedIn (s : Store) : LayoutId → LayoutId → Prop :=
  Relation.ReflTransGen fun k p => (s.layout k).enclosing = some p

/-- Links that were made have stayed. -/
def KeepsLinks (s s' : Store) : Prop := ∀ k p, (s.layout k).enclosing = some p → (s'.layout k).enclosing = some p

theorem KeepsLinks.of_eq (h : ∀ k, (s₁.layout k).enclosing = (s.layout k).enclosing) : s.KeepsLinks s₁ := by
  intro k p hp
  rw [h, hp]

theorem KeepsLinks.trans (h : s.KeepsLinks s₁) (h' : s₁.KeepsLinks s₂) : s.KeepsLinks s₂ := fun k p hp =>
  h' k p (h k p hp)

theorem Settles.keepsLinks (h : s.Settles s₁) : s.KeepsLinks s₁ := by
  intro k p hp
  rw [h k (Or.inl (by simp [hp])), hp]

theorem KeepsLinks.linkedIn (h : s.KeepsLinks s₁) (hk : s.LinkedIn k l) : s₁.LinkedIn k l :=
  Relation.ReflTransGen.mono (fun _ _ hp => h _ _ hp) _ _ hk

theorem NestedIn.linkedIn (h : s.NestedIn k l) : s.LinkedIn k l :=
  Relation.ReflTransGen.mono (fun _ _ hp => parent_eq_some hp) _ _ h

/-! ## Files -/

/-- The slot of a name has the name. -/
theorem name_of_slotIndex? {i : Nat} {info : SlotInfo} (hi : (s.layout l).slotIndex? n = some i)
    (hslot : s.slot? l i = some info) : info.name = n := by
  obtain ⟨info', hslot', hname⟩ := Layout.slotIndex?_eq_some hi
  rwa [Option.some.inj (hslot.symm.trans hslot')]

/-- The place of a name in a layout stays the same. -/
theorem Later.slotIndex? (h : s.Later s₁) {i : Nat} (hi : (s.layout l).slotIndex? n = some i) :
    (s₁.layout l).slotIndex? n = some i := by
  unfold Layout.slotIndex? at hi ⊢
  obtain ⟨hlt, hname, hfirst⟩ := Array.findIdx?_eq_some_iff_getElem.1 hi
  -- All slots up to this one have kept their names.
  have hkept : ∀ j (hj : j ≤ i), ∃ hlt₁ : j < (s₁.layout l).slots.size,
      ((s₁.layout l).slots[j]).name = ((s.layout l).slots[j]).name := by
    intro j hj
    obtain ⟨info, hslot, hsame, -⟩ := h.slots l j _ (Array.getElem?_eq_getElem (Nat.lt_of_le_of_lt hj hlt))
    obtain ⟨hlt₁, heq⟩ := Array.getElem?_eq_some_iff.1 hslot
    exact ⟨hlt₁, heq ▸ hsame⟩
  apply Array.findIdx?_eq_some_iff_getElem.2
  obtain ⟨hlt₁, hsame⟩ := hkept i (Nat.le_refl i)
  refine ⟨hlt₁, by rwa [hsame], fun j hj => ?_⟩
  obtain ⟨_, hsame⟩ := hkept j hj.le
  rw [hsame]
  exact hfirst j hj

/-- What a result found is bound in a layout that `k` is linked to, in the slot for the name. A token says so as
    long as it is valid. -/
def Anchored (s : Store) (k : LayoutId) (n : Name) : LookupResult → Prop
  | .stable t _    => s.Allocated (.stable t) ∧ (s.stable t).value ≠ none ∧ (s.stableValid t = true →
      ∃ p i, s.LinkedIn k p ∧ (s.layout p).slotIndex? n = some i ∧ s.token p i = some t)
  | .boundAt b i _ => s.Allocated (.activation b) ∧ s.LinkedIn k (s.layoutOf b)
      ∧ (s.layout (s.layoutOf b)).slotIndex? n = some i
  | .unbound _     => True

/-- What is remembered is anchored, and its guard has been made for it alone. -/
structure Filed (s : Store) : Prop where
  made : ∀ k n r, (n, r) ∈ (s.layout k).memos → r.guard.index < s.lookups.size
  distinct : ∀ k n r k' n' r', (n, r) ∈ (s.layout k).memos → (n', r') ∈ (s.layout k').memos →
    r.guard = r'.guard → k = k' ∧ n = n' ∧ r = r'
  anchored : ∀ k n r, (n, r) ∈ (s.layout k).memos → s.Anchored k n r

/-- A step that keeps links keeps results anchored. -/
theorem Anchored.later (h : s.Anchored k n r) (hp : s.Progress s₁) (hc : s.KeepsScopes s₁) (hlinks : s.KeepsLinks s₁) :
    s₁.Anchored k n r := by
  cases r with
  | stable t g =>
      obtain ⟨halloc, hvalue, hplace⟩ := h
      refine ⟨hp.grows _ halloc, by rwa [hp.later.kept t halloc], fun hvalid₁ => ?_⟩
      have hvalid : s.stableValid t = true := by
        by_contra hnot
        rw [hp.later.fallen t halloc (Bool.eq_false_iff.2 hnot)] at hvalid₁
        exact absurd hvalid₁ Bool.false_ne_true
      obtain ⟨p, i, hlinked, hi, ht⟩ := hplace hvalid
      refine ⟨p, i, hlinks.linkedIn hlinked, hp.later.slotIndex? hi, ?_⟩
      exact (hp.later.dropped p i t ht).resolve_right (by simp [hvalid₁])
  | boundAt b i g =>
      obtain ⟨halloc, hlinked, hi⟩ := h
      obtain ⟨halloc₁, hlayout⟩ := hc b halloc
      refine ⟨halloc₁, ?_, ?_⟩
      · rw [hlayout]
        exact hlinks.linkedIn hlinked
      · rw [hlayout]
        exact hp.later.slotIndex? hi
  | unbound g => trivial

/-- The results that a step leaves behind were there before, or one of them is new. -/
theorem Filed.later (h : s.Filed) (hp : s.Progress s₁) (hc : s.KeepsScopes s₁) (hlinks : s.KeepsLinks s₁)
    (hsize : s.lookups.size ≤ s₁.lookups.size) (new : LayoutId → Name → LookupResult → Prop)
    (hmemos : ∀ k n r, (n, r) ∈ (s₁.layout k).memos → (n, r) ∈ (s.layout k).memos ∨ new k n r)
    (hone : ∀ k n r k' n' r', new k n r → new k' n' r' → k = k' ∧ n = n' ∧ r = r')
    (hnew : ∀ k n r, new k n r →
      s.lookups.size ≤ r.guard.index ∧ r.guard.index < s₁.lookups.size ∧ s.Anchored k n r) : s₁.Filed := by
  refine ⟨fun k n r hr => ?_, fun k n r k' n' r' hr hr' heq => ?_, fun k n r hr => ?_⟩
  · rcases hmemos k n r hr with hold | hnew'
    · exact Nat.lt_of_lt_of_le (h.made k n r hold) hsize
    · exact (hnew k n r hnew').2.1
  · rcases hmemos k n r hr with hold | hadded <;> rcases hmemos k' n' r' hr' with hold' | hadded'
    · exact h.distinct k n r k' n' r' hold hold' heq
    · -- A new guard has not been made before.
      have hlt := h.made k n r hold
      have hge := (hnew k' n' r' hadded').1
      rw [heq] at hlt
      omega
    · have hlt := h.made k' n' r' hold'
      have hge := (hnew k n r hadded).1
      rw [heq] at hge
      omega
    · exact hone k n r k' n' r' hadded hadded'
  · apply Anchored.later _ hp hc hlinks
    rcases hmemos k n r hr with hold | hadded
    · exact h.anchored k n r hold
    · exact (hnew k n r hadded).2.2

/-- A step that remembers nothing new keeps the files. -/
theorem Filed.kept (h : s.Filed) (hp : s.Progress s₁) (hc : s.KeepsScopes s₁) (hlinks : s.KeepsLinks s₁)
    (hsize : s.lookups.size ≤ s₁.lookups.size) (hmemos : ∀ k, ∀ m ∈ (s₁.layout k).memos, m ∈ (s.layout k).memos) :
    s₁.Filed := by
  apply h.later hp hc hlinks hsize fun _ _ _ => False
  · intro k n r hr
    exact Or.inl (hmemos k _ hr)
  · intro _ _ _ _ _ _ hnone
    exact hnone.elim
  · intro _ _ _ hnone
    exact hnone.elim

theorem filed_new (names : List String) : (Store.new names).Filed := by
  have hnone : ∀ k, ((Store.new names).layout k).memos = [] := fun _ => rfl
  constructor <;> intros <;> simp_all

/-! ## Lookups -/

/-- Where a walk stops, the slot for the name has a token with a value, or it is not tracked, and the layout names
    an activation alive. -/
theorem slotIndex?_of_stopAt {f : Finding} (h : s.stopAt l n = .found f) :
    ∃ i, (s.layout l).slotIndex? n = some i
      ∧ ((∃ t, s.token l i = some t ∧ (s.stable t).value ≠ none ∧ f = .stable t)
        ∨ ∃ b, s.singletonActivation l = some b ∧ f = .boundAt b i) := by
  unfold stopAt at h
  split at h
  · simp at h
  · rename_i i hslot
    refine ⟨i, hslot, ?_⟩
    split at h
    · rename_i t ht
      split at h
      · rename_i hsome
        exact Or.inl ⟨t, ht, Option.isSome_iff_ne_none.1 hsome, (Stop.found.inj h).symm⟩
      · simp at h
    · split at h
      · rename_i b hb
        exact Or.inr ⟨b, hb, (Stop.found.inj h).symm⟩
      · simp at h

/-- **What a walk finds is anchored.** -/
theorem anchored_of_walk (hs : s.WellFormed) (ho : s.Orderly) {fuel : Nat} {f : Finding} {path : List ActivationId}
    (hw : s.walk n fuel a = some (f, path)) (g : LookupId) : s.Anchored (s.layoutOf a) n (f.toResult g) := by
  replace hw := walks_of_walk hw
  induction hw with
  | @stop _ a _ hstop =>
      obtain ⟨i, hi, ⟨t, ht, hvalue, rfl⟩ | ⟨b, hb, rfl⟩⟩ := slotIndex?_of_stopAt hstop
      · exact ⟨hs.token ht, hvalue, fun _ => ⟨_, i, .refl, hi, ht⟩⟩
      · -- The activation that a layout names is one of it.
        have hsingle : (s.layout (s.layoutOf a)).singleton = some b := by
          obtain ⟨c, hc, hup⟩ := Option.bind_eq_some_iff.1 hb
          unfold upgradeActivation at hup
          split at hup
          · rwa [← Option.some.inj hup]
          · simp at hup
        obtain ⟨halloc, hlayout⟩ := ho.named _ b hsingle
        refine ⟨halloc, ?_, ?_⟩
        · rw [hlayout]
        · rwa [hlayout]
  | root => trivial
  | @up _ a next f _ _ halong _ _ ih =>
      -- What is anchored for the next layout is anchored for this one, which is linked to it.
      cases f with
      | stable t =>
          obtain ⟨halloc, hvalue, hplace⟩ := ih
          refine ⟨halloc, hvalue, fun hvalid => ?_⟩
          obtain ⟨p, i, hlinked, hrest⟩ := hplace hvalid
          exact ⟨p, i, .head halong hlinked, hrest⟩
      | boundAt b i =>
          obtain ⟨halloc, hlinked, hi⟩ := ih
          exact ⟨halloc, .head halong hlinked, hi⟩
      | unbound => trivial

theorem filed_perform (hs : s.Sound) (ho : s.Orderly) (hf : s.Filed) {op : Operation}
    (h : ∀ r ∈ op.operands, r ∈ s.roots) (hlinks : s.KeepsLinks (op.perform s)) : (op.perform s).Filed := by
  have hp := progress_perform hs h
  have hc := (claims_perform hs h).scopes
  have hsize := size_lookups_perform hs h
  by_cases hlooks : op.LooksUp
  · obtain ⟨a, n, hop⟩ : ∃ a n, op.LooksUpFrom s a n := by
      cases op with
      | resolve a n => exact ⟨a, n, rfl, rfl⟩
      | cachedRead c a => exact ⟨a, _, rfl, rfl⟩
      | _ => exact hlooks.elim
    have ha := live_of_mem_roots (mem_roots_of_looksUpFrom hop h)
    obtain ⟨s₁, hfound, hlayouts, -, hlookups, -⟩ := perform_lookup hop
    have hmemos : ∀ k, ((op.perform s).layout k).memos = (s₁.layout k).memos := fun k => by
      rw [layout, hlayouts, ← layout]
    have hsame : s₁ = s → (op.perform s).Filed := by
      rintro rfl
      exact hf.kept hp hc hlinks hsize fun k m hm => hmemos k ▸ hm
    rcases hfound with hfound | rfl
    · exact hsame hfound
    · rcases resolve_cases hs ha n with ⟨hfound, -⟩ | ⟨f, path, hw, -, hlearns⟩
      · exact hsame hfound
      · -- The one new result is that of the walk.
        refine hf.later hp hc hlinks hsize
          (fun k m r => k = s.layoutOf a ∧ m = n ∧ r = f.toResult ⟨s.lookups.size⟩) (fun k m r hr => ?_) ?_ ?_
        · rw [hmemos] at hr
          exact (hlearns.memos k _ hr).imp_right fun hnew => ⟨hnew.1, Prod.mk.inj hnew.2⟩
        · rintro k m r k' m' r' ⟨rfl, rfl, rfl⟩ ⟨rfl, rfl, rfl⟩
          exact ⟨rfl, rfl, rfl⟩
        · rintro k m r ⟨rfl, rfl, rfl⟩
          refine ⟨hlearns.fresh, ?_, anchored_of_walk hs.wellFormed ho hw _⟩
          rw [hlookups]
          exact hlearns.made
  · exact hf.kept hp hc hlinks hsize (tidies_perform hs.wellFormed h hlooks).memos

/-! ## Runs -/

/-- Operations that move no scope. -/
def Operation.isSteady : Operation → Bool
  | .relink .. | .setEnclosing .. | .attach .. | .detachEnclosing _ => false
  | _ => true

/-- One step of a program that nests scopes in trees, and moves none of them: a layout is linked before it is used,
    and stays linked. -/
inductive SettledStep (s : Store) : Store → Prop where
  | operate (op : Operation) (hop : op.isSteady = true) (h : ∀ r ∈ op.operands, r ∈ s.roots)
      (hsettles : s.Settles (op.perform s)) (hacyclic : (op.perform s).Acyclic) : SettledStep s (op.perform s)
  | elsewhere {s' : Store} (h : s.Elsewhere s') (hout : s.Outside s') : SettledStep s s'

/-- Any number of such steps. -/
abbrev SettledRun : Store → Store → Prop := Relation.ReflTransGen SettledStep

/-- A store that such a program can come to. -/
def Settled (s : Store) : Prop := ∃ names, SettledRun (.new names) s

/-- What the steps of such a program keep. -/
structure InOrder (s : Store) : Prop where
  rooted : s.Rooted
  mirrored : s.Mirrored
  orderly : s.Orderly
  furnished : s.Furnished
  filed : s.Filed

theorem SettledStep.step (h : s.SettledStep s₁) : s.Step s₁ := by
  cases h with
  | operate op _ h _ _ => exact .operate op h
  | elsewhere h _ => exact .elsewhere h

theorem SettledStep.keepsLinks (h : s.SettledStep s₁) : s.KeepsLinks s₁ := by
  cases h with
  | operate op _ _ hsettles _ => exact hsettles.keepsLinks
  | elsewhere h _ => exact .of_eq fun k => by rw [h.layout]

theorem SettledStep.forestStep (h : s.SettledStep s₁) (hr : s.Rooted) : s.ForestStep s₁ := by
  have hprogress := h.step.progress hr.sound
  refine ⟨h.step, ?_⟩
  cases h with
  | operate op _ _ _ hacyclic => exact hacyclic
  | elsewhere h _ =>
      exact hr.acyclic.of_enclosing hr.sound.wellFormed hprogress.sound.wellFormed (fun k => by rw [h.layout])
        hprogress.back

theorem SettledStep.treeStep (h : s.SettledStep s₁) : s.TreeStep s₁ := by
  cases h with
  | operate op hop h _ hacyclic =>
      refine .operate op h ?_ hacyclic.loopless
      cases op with
      | attach a inserted => exact absurd hop Bool.false_ne_true
      | _ => trivial
  | elsewhere h _ => exact .elsewhere h

/-- **Every such step keeps a store in order.** -/
theorem SettledStep.inOrder (h : s.SettledStep s₁) (ho : s.InOrder) : s₁.InOrder := by
  have hs := ho.rooted.sound
  refine ⟨(h.forestStep ho.rooted).rooted ho.rooted, h.treeStep.mirrored hs ho.mirrored, ?_, ?_, ?_⟩
  · cases h with
    | operate op _ h _ _ => exact orderly_perform hs h ho.orderly
    | elsewhere h _ => exact (tidies_of_eq h.layouts h.activations h.lookups h.caches).orderly ho.orderly
  · cases h with
    | operate op _ _ _ _ =>
        have hmarks : s.Marks (fun _ => True) (op.perform s) := marks_perform ho.furnished op fun _ _ => trivial
        exact hmarks.furnished ho.furnished
    | elsewhere _ hout =>
        have hmarks : s.Marks (fun _ => True) s₁ := hout.marks
        exact hmarks.furnished ho.furnished
  · have hlinks := h.keepsLinks
    cases h with
    | operate op _ h _ _ => exact filed_perform hs ho.orderly ho.filed h hlinks
    | elsewhere h hout =>
        apply ho.filed.kept (h.progress hs) (keepsScopes_of_eq h.activations) hlinks
        · rw [h.lookups]
        · intro k m hm
          rwa [h.layout] at hm

theorem inOrder_new (names : List String) : (Store.new names).InOrder :=
  ⟨rooted_new names, mirrored_new names, orderly_new names, furnished_new names, filed_new names⟩

/-- What every step keeps, a run keeps. -/
theorem SettledRun.inOrder (h : SettledRun s s₁) (ho : s.InOrder) : s₁.InOrder := by
  induction h with
  | refl => exact ho
  | tail _ hstep ih => exact hstep.inOrder ih

theorem Settled.inOrder (h : s.Settled) : s.InOrder := by
  obtain ⟨names, hrun⟩ := h
  exact SettledRun.inOrder hrun (inOrder_new names)

theorem SettledRun.keepsLinks (h : SettledRun s s₁) : s.KeepsLinks s₁ := by
  induction h with
  | refl => exact fun _ _ => id
  | tail _ hstep ih => exact ih.trans hstep.keepsLinks

theorem SettledRun.progress (h : SettledRun s s₁) (hs : s.Sound) : s.Progress s₁ := by
  have hrun : Run s s₁ := Relation.ReflTransGen.mono (fun _ _ hstep => hstep.step) _ _ h
  exact hrun.progress hs

/-- What is held may be given up. -/
theorem settledStep_release (s : Store) (rs : List Ref) : s.SettledStep (s.release rs) :=
  .elsewhere (elsewhere_release s rs) ⟨rfl, rfl, Nat.le_refl _, fun _ => id⟩

/-- A function may be made, once it has a layout. -/
theorem settledStep_addFunction (s : Store) (t : CallTarget) {c : Callable} (hrefs : ∀ r ∈ c.refs, s.Live r) :
    s.SettledStep ((s.addFunction t c).acquire [.callable ⟨s.callables.size⟩]) := by
  have hleads := (Leads.refl s).addFunction t fun r hr => Or.inl (hrefs r hr)
  refine .elsewhere ⟨⟨hleads.grows, fun r hr => ?_, hleads.refs, hleads.weak⟩, rfl, rfl, rfl, rfl, rfl, rfl⟩
    ⟨rfl, rfl, Nat.le_refl _, fun _ => id⟩
  simp only [roots, acquire, List.mem_append, List.mem_singleton] at hr
  rcases hr with hr | rfl | hr
  · exact hleads.roots r (List.mem_append_left _ hr)
  · -- The function was not there before.
    refine Or.inr ⟨Nat.lt_irrefl _, ?_⟩
    show s.callables.size < (s.callables.push c).size
    simp
  · exact hleads.roots r (List.mem_append_right _ hr)

/-- Operations that are steady, keep the links and nest layouts in the order in which they were made. -/
def fitsSettled (s : Store) (op : Operation) : Bool :=
  op.isSteady && s.keepsNesting (op.perform s) && decide (op.perform s).OuterFirst

theorem SettledRun.of_allFit {ops : List Operation} (h : allFit fitsSettled s ops = true) :
    SettledRun s (ops.foldl Operation.perform s) := by
  refine steps_of_allFit (fun s op hheld hfit => ?_) h
  simp only [fitsSettled, Bool.and_eq_true, decide_eq_true_eq] at hfit
  obtain ⟨⟨hop, hkeeps⟩, houter⟩ := hfit
  exact .operate op hop hheld (nesting_of_keepsNesting hkeeps).1 houter.acyclic

end Store

end ScopeCall
