import ScopeCall.Proofs.Hanging
import ScopeCall.Proofs.Isolating
import ScopeCall.Proofs.Reading
import ScopeCall.Proofs.Relinking

/-!
# `ScopeCall.Proofs.Abiding` — scopes that stay where they are

Lookups, and changes of what scopes hold, leave the nesting alone: every scope stays inside the one it was in, and
every layout linked as it was. So what is remembered stays reliable at each layout that has all the layouts around
it still alive, whatever becomes of handles meanwhile.

## Contents
- **Chains.** `Store.KeepsChains`: which scope is inside which.
- **Nesting.** `Store.Abides`, for links of layouts as well, and `abides_local`.
- **Layouts upheld.** `Store.Upheld`, and `Store.Recollects`: what is remembered there is reliable.
- **Runs.** `Store.LocalStep`, and `LocalRun.recollects`.
-/

namespace ScopeCall

namespace Store

variable {s s₁ s₂ : Store} {k p : LayoutId} {b : ActivationId}

/-! ## Chains -/

/-- The same scopes have been made, and each is of its layout and inside the scope that it was in. -/
structure KeepsChains (s s' : Store) : Prop where
  size : s'.activations.size = s.activations.size
  layoutOf : ∀ b, s'.layoutOf b = s.layoutOf b
  enclosing : ∀ b, (s'.activation b).enclosing = (s.activation b).enclosing

theorem keepsChains_of_eq (h : s₁.activations = s.activations) : s.KeepsChains s₁ := by
  have hsame : s₁.activation = s.activation := by
    unfold activation
    rw [h]
  constructor
  case size => rw [h]
  case layoutOf => exact fun b => congrArg Activation.layout (congrFun hsame b)
  case enclosing => exact fun b => congrArg Activation.enclosing (congrFun hsame b)

theorem KeepsChains.trans (h : s.KeepsChains s₁) (h' : s₁.KeepsChains s₂) : s.KeepsChains s₂ where
  size := h'.size.trans h.size
  layoutOf b := (h'.layoutOf b).trans (h.layoutOf b)
  enclosing b := (h'.enclosing b).trans (h.enclosing b)

/-- A change of an activation that leaves alone its layout, and where it is. -/
theorem keepsChains_modifyActivation (s : Store) (a : ActivationId) {f : Activation → Activation}
    (hlayout : (f (s.activation a)).layout = (s.activation a).layout)
    (hlink : (f (s.activation a)).enclosing = (s.activation a).enclosing) :
    s.KeepsChains (s.modifyActivation a f) where
  size := Array.size_modify
  layoutOf b := activation_modifyActivation_congr s Activation.layout a b f hlayout
  enclosing b := activation_modifyActivation_congr s Activation.enclosing a b f hlink

theorem keepsChains_setContent (s : Store) (a : ActivationId) (i : Nat) (c : SlotContent) :
    s.KeepsChains (s.setContent a i c) := keepsChains_modifyActivation s a rfl rfl

theorem keepsChains_store (s : Store) (a : ActivationId) (i : Nat) (v : Value) :
    s.KeepsChains ((store a i v).run s).2 := by
  rw [store_run]
  split
  · exact keepsChains_setContent s a i _
  · exact (keepsChains_of_eq (activations_recordWrite s _ i (some v))).trans (keepsChains_setContent _ a i _)

theorem keepsChains_write (s : Store) (a : ActivationId) (i : Nat) (v : Value) (nonLocal : Bool) :
    s.KeepsChains ((write a i v nonLocal).run.run s).2 := by
  rw [write_run]
  split
  · exact keepsChains_of_eq rfl
  · rename_i info _
    have hstored : s.KeepsChains ((store a i v).run (s.noted a v)).2 :=
      (keepsChains_of_eq (activations_noted s a v).1).trans (keepsChains_store _ a i v)
    generalize (store a i v).run (s.noted a v) = result at hstored ⊢
    rcases result with ⟨filled, s₁⟩
    refine KeepsChains.trans ?_ (keepsChains_of_eq (activations_noteWrite _ info nonLocal _))
    split
    · exact hstored.trans (keepsChains_of_eq (swept_invalidateNames s₁ _ _).activations)
    · exact hstored

theorem keepsChains_bindName (s : Store) (a : ActivationId) (n : Name) (v : Value) (nonLocal : Bool) :
    s.KeepsChains ((bindName a n v nonLocal).run.run s).2 := by
  rw [bindName_run]
  exact (keepsChains_of_eq (findOrAddSlot_spec s _ n).2.1).trans (keepsChains_write _ a _ v nonLocal)

theorem keepsChains_empty (s : Store) (a : ActivationId) (i : Nat) : s.KeepsChains ((empty a i).run s).2 := by
  rw [empty_run]
  refine KeepsChains.trans ?_ (keepsChains_of_eq (activations_recordWrite _ _ i none))
  split
  · exact keepsChains_of_eq rfl
  · exact keepsChains_setContent s a i _

theorem keepsChains_remove (s : Store) (a : ActivationId) (n : Name) :
    s.KeepsChains ((remove a n).run s).2 := by
  rw [remove_run]
  split
  · exact keepsChains_of_eq rfl
  · split
    · exact keepsChains_of_eq rfl
    · exact ((keepsChains_empty s a _).trans (keepsChains_of_eq (activations_noteWrite _ _ _ _))).trans
        (keepsChains_of_eq (swept_invalidateNames _ _ _).activations)

theorem Notes.keepsChains (h : s.Notes s₁) : s.KeepsChains s₁ := keepsChains_of_eq (by rw [h.rest])

/-- **Local operations leave every scope where it is.** -/
theorem keepsChains_local (s : Store) {op : Operation} (hop : op.isLocal = true) :
    s.KeepsChains (op.perform s) := by
  cases op with
  | findOrAddSlot l n => exact keepsChains_of_eq (findOrAddSlot_spec s l n).2.1
  | invalidateNames l names => exact keepsChains_of_eq (swept_invalidateNames s l names).activations
  | invalidateAll l => exact keepsChains_of_eq (swept_invalidateAll s l).activations
  | define a n v | assignNonLocal a n v => exact keepsChains_bindName s a n v _
  | setActiveBinding a n g => exact keepsChains_bindName s a n _ false
  | write a i v nonLocal => exact keepsChains_write s a i v nonLocal
  | remove a n => exact keepsChains_remove s a n
  | markIrregular a => exact keepsChains_modifyActivation s a rfl rfl
  | resolve a n => exact (Notes.resolve s a n).keepsChains
  | cachedRead c a => exact (Notes.cachedRead s c a).keepsChains
  | newCache | registerContexts | enterContext | leaveContext => exact keepsChains_of_eq rfl
  | newLayout | newScope | initializeEnclosing | relink | setEnclosing | attach | detachEnclosing
  | writeInContext | fanOutSlot | fanOutAll | cleanFanOut => exact absurd hop Bool.false_ne_true

/-! ## Nesting -/

/-- Scopes are where they were, and layouts are linked as they were. -/
structure Abides (s s' : Store) : Prop extends s.KeepsChains s' where
  layouts : s.KeepsLayouts s'
  links : ∀ k, (s'.layout k).enclosing = (s.layout k).enclosing
  children : ∀ k, (s'.layout k).children = (s.layout k).children

theorem Abides.refl (s : Store) : s.Abides s :=
  ⟨keepsChains_of_eq rfl, fun _ hk => ⟨hk, rfl⟩, fun _ => rfl, fun _ => rfl⟩

theorem Abides.trans (h : s.Abides s₁) (h' : s₁.Abides s₂) : s.Abides s₂ where
  toKeepsChains := h.toKeepsChains.trans h'.toKeepsChains
  layouts := h.layouts.trans h'.layouts
  links k := (h'.links k).trans (h.links k)
  children k := (h'.children k).trans (h.children k)

theorem Elsewhere.abides (h : s.Elsewhere s₁) : s.Abides s₁ where
  toKeepsChains := keepsChains_of_eq h.activations
  layouts k hk := ⟨h.leads.grows _ hk, by rw [h.layout]⟩
  links k := by rw [h.layout]
  children k := by rw [h.layout]

/-- **Local operations leave the nesting as it is.** -/
theorem abides_local (hs : s.Sound) {op : Operation} (hop : op.isLocal = true)
    (h : ∀ r ∈ op.operands, r ∈ s.roots) : s.Abides (op.perform s) := by
  have hkept : s.Relinks (fun _ _ => True) (op.perform s) := relinks_perform s op fun _ _ => trivial
  have hlinks : ¬ op.Relinks := by
    intro hrelinks
    cases op with
    | initializeEnclosing | relink | newScope | setEnclosing | attach | detachEnclosing =>
        exact Bool.false_ne_true hop
    | _ => exact hrelinks
  -- What looks names up adds to what layouts remember, and all else takes away from it.
  by_cases hlooks : op.LooksUp
  · have hadds := adds_perform hs h hlooks
    exact ⟨keepsChains_local s hop, hkept.layouts, hadds.enclosing, hadds.children⟩
  · have hfades : s.Fades (fun _ => False) (op.perform s) := fades_perform hs h hlinks hlooks fun _ => False.elim
    exact ⟨keepsChains_local s hop, hkept.layouts, hfades.enclosing, hfades.children⟩

/-! ## Layouts upheld -/

/-- A layout is alive, and so is every layout around it. -/
def Upheld (s : Store) (k : LayoutId) : Prop :=
  ∀ p, Relation.ReflTransGen (fun k p => (s.layout k).enclosing = some p) k p → s.Live (.layout p)

/-- What is remembered at layouts upheld can be relied on. -/
abbrev Recollects (s : Store) : Prop := s.Remembers s.Upheld fun _ _ => False

theorem Upheld.live (h : s.Upheld k) : s.Live (.layout k) := h k .refl

theorem Upheld.upward (h : s.Upheld k) (hp : (s.layout k).enclosing = some p) : s.Upheld p :=
  fun q hq => h q (.head hp hq)

/-- A layout upheld after a step that makes no links was so before. -/
theorem Upheld.before (h : s₁.Upheld k) (hs : s.WellFormed)
    (hlinks : ∀ k, (s₁.layout k).enclosing = (s.layout k).enclosing)
    (hback : ∀ l, s₁.Live (.layout l) → s.Allocated (.layout l) → s.Live (.layout l))
    (hk : s.Allocated (.layout k)) : s.Upheld k := by
  intro p hkp
  have hmade : s.Allocated (.layout p) := by
    cases hkp with
    | refl => exact hk
    | tail _ hlink => exact hs.enclosing hlink
  simp only [← hlinks] at hkp
  exact hback p (h p hkp) hmade

/-- The layouts around that of a scope alive are those of the scopes around it. -/
theorem Nested.upheld (h : s.Nested) (hs : s.Sound) (hb : s.Live (.activation b)) : s.Upheld (s.layoutOf b) := by
  intro p hp
  -- Each link is followed by a step from a scope to the one around it.
  have hscope : ∃ e, s.Live (.activation e) ∧ s.layoutOf e = p := by
    induction hp with
    | refl => exact ⟨b, hb, rfl⟩
    | tail _ hlink ih =>
        obtain ⟨e, he, rfl⟩ := ih
        rw [h.along e (hs.current he)] at hlink
        obtain ⟨f, hf, rfl⟩ := Option.map_eq_some_iff.1 hlink
        exact ⟨f, he.enclosing hs.wellFormed hf, rfl⟩
  obtain ⟨e, he, rfl⟩ := hscope
  exact he.layoutOf hs.wellFormed

/-! ## Runs -/

/-- One lookup, or one change of what a scope holds; or something else, be it that handles are given up. -/
inductive LocalStep (s : Store) : Store → Prop where
  | operate (op : Operation) (hop : op.isLocal = true) (h : ∀ r ∈ op.operands, r ∈ s.roots) :
      LocalStep s (op.perform s)
  | elsewhere {s' : Store} (h : s.Elsewhere s') : LocalStep s s'

/-- Any number of such steps. -/
abbrev LocalRun : Store → Store → Prop := Relation.ReflTransGen LocalStep

theorem LocalStep.step (h : s.LocalStep s₁) : s.Step s₁ := by
  cases h with
  | operate op _ h => exact .operate op h
  | elsewhere h => exact .elsewhere h

theorem LocalStep.abides (h : s.LocalStep s₁) (hs : s.Sound) : s.Abides s₁ := by
  cases h with
  | operate op hop h => exact abides_local hs hop h
  | elsewhere h => exact h.abides

/-- **Each step keeps what is remembered reliable**, as far as layouts are upheld in the end. -/
theorem LocalStep.recollects (h : s.LocalStep s₁) (hs : s.Sound) (hrec : s.Recollects) : s₁.Recollects := by
  have hlinks := (h.abides hs).links
  -- Links do not change, so what is upheld after the step was so before.
  have hforeseen : s.Remembers s₁.Upheld fun _ _ => False :=
    hrec.weaken (fun k hk => hk.before hs.wellFormed hlinks (h.step.progress hs).back)
      fun k p hk hp => hk.upward ((hlinks k).trans hp)
  cases h with
  | operate op hop h => exact remembers_local hs hop h hforeseen fun _ hk _ => hk.live
  | elsewhere h => exact hforeseen.same hs.wellFormed h.layouts h.activations h.stables h.lookups h.caches

/-- What each step keeps, a run keeps. -/
theorem LocalRun.recollects (h : LocalRun s s₁) (hs : s.Sound) (hrec : s.Recollects) :
    s₁.Sound ∧ s₁.Recollects ∧ s.Abides s₁ := by
  induction h with
  | refl => exact ⟨hs, hrec, .refl s⟩
  | tail _ hstep ih =>
      obtain ⟨hs₁, hrec₁, habides⟩ := ih
      exact ⟨(hstep.step.progress hs₁).sound, hstep.recollects hs₁ hrec₁, habides.trans (hstep.abides hs₁)⟩

theorem LocalRun.of_allFit {ops : List Operation} (h : allFit (fun _ => Operation.isLocal) s ops = true) :
    LocalRun s (ops.foldl Operation.perform s) :=
  steps_of_allFit (fun _ op hheld hop => .operate op hop hheld) h

end Store

end ScopeCall
