import ScopeCall.Proofs.Abiding
import ScopeCall.Proofs.Opening
import ScopeCall.Proofs.Staying

/-!
# `ScopeCall.Proofs.Founding` — layouts that are linked before they are used

In most programs the layout of a scope is linked before the first scope of it is made, or just then, and is held from
then on, while scopes come and go. In such a program layouts stay linked to their first parents, which are alive as
long as anything, and the children of a layout are those that are linked to it.

## Contents
- **Links.** `Store.Hooks`: at most one layout is linked, which had no parent. `hooks_perform`.
- **Steps.** `Store.FoundingStep`, and `Store.Founded`, what each step keeps.
- **Runs.** `Founding.lexical`: nothing else is needed for reading to be walking.
-/

namespace ScopeCall

namespace Store

variable {s s₁ : Store} {l p : LayoutId}

/-! ## Links -/

/-- A layout is held, or a scope of it is. -/
def Reserved (s : Store) (p : LayoutId) : Prop :=
  Ref.layout p ∈ s.roots ∨ ∃ e, Ref.activation e ∈ s.roots ∧ s.layoutOf e = p

/-- Links and children have stayed, or one layout without a parent alive has been linked. -/
inductive Hooks (s s' : Store) : Prop where
  | stay (hlinks : ∀ k, (s'.layout k).enclosing = (s.layout k).enclosing)
    (hchildren : ∀ k, (s'.layout k).children = (s.layout k).children)
  | hook (l p : LayoutId) (hfree : s.parent l = none) (hp : s.Reserved p)
    (hlinks : ∀ k, (s'.layout k).enclosing = if k = l then some p else (s.layout k).enclosing)
    (hchildren : ∀ k c, c ∈ (s'.layout k).children ↔ c ∈ (s.layout k).children ∨ k = p ∧ c = l)

/-- A layout has been linked, and then other things have happened. -/
theorem hooks_linked (hl : s.Allocated (.layout l)) (hmade : s.Allocated (.layout p)) (hfree : s.parent l = none)
    (hp : s.Reserved p) {alive : LayoutId → Prop} (hlast : (s.linked l p).Fades alive s₁) : s.Hooks s₁ := by
  refine .hook l p hfree hp (fun k => ?_) fun k c => ?_
  · rw [hlast.enclosing, enclosing_linked hl]
  · rw [hlast.children, mem_children_linked_iff hmade]

/-- **Lexical operations hook a layout to a parent, or nothing.** -/
theorem hooks_perform (hs : s.Sound) {op : Operation} (hop : op.isLexical = true)
    (h : ∀ r ∈ op.operands, r ∈ s.roots) : s.Hooks (op.perform s) := by
  have hwf := hs.wellFormed
  by_cases hlocal : op.isLocal = true
  · have habides := abides_local hs hlocal h
    exact .stay habides.links habides.children
  · -- These three are all that is lexical and not local.
    cases op with
    | newLayout label kind policy =>
        have hfades : s.Fades (fun _ => False) ((Operation.newLayout label kind policy).perform s) :=
          fades_perform hs h id id fun _ => False.elim
        exact .stay hfades.enclosing hfades.children
    | newScope l enclosing depth =>
        obtain ⟨hl, he⟩ := held_optional h
        have hnone : ((Operation.newScope l enclosing depth).perform s).Lasting fun _ => False := fun _ => False.elim
        rcases fades_newScope hs h hnone with hfades | ⟨e, rfl, hfree, hfades⟩
        · exact .stay hfades.enclosing hfades.children
        · exact hooks_linked (hwf.roots _ hl) (hwf.layoutOf (he e rfl)) hfree (Or.inr ⟨e, he e rfl, rfl⟩) hfades
    | initializeEnclosing l parent =>
        obtain ⟨hl, hp⟩ := held_optional h
        rw [Operation.perform, initializeEnclosing_run]
        split
        · rename_i p hfree
          exact hooks_linked (hwf.roots _ hl) (hwf.roots _ (hp p rfl)) hfree (Or.inl (hp p rfl))
            (.refl (fun _ => False) (s.linked l p))
        · split <;> exact .stay (fun _ => rfl) fun _ => rfl
    | _ => exact absurd hop hlocal

/-! ## Steps -/

/-- One step of a program that links a layout before it has a scope, or with the first one: an operation that links
    no layout that a scope has been made of, or something else, be it that handles are given up, but not those of
    layouts. -/
inductive FoundingStep (s : Store) : Store → Prop where
  | operate (op : Operation) (hop : op.isLexical = true) (h : ∀ r ∈ op.operands, r ∈ s.roots)
      (hlinked : ∀ b, s.Allocated (.activation b) →
        ((op.perform s).layout (s.layoutOf b)).enclosing = (s.layout (s.layoutOf b)).enclosing) :
      FoundingStep s (op.perform s)
  | elsewhere {s' : Store} (h : s.Elsewhere s')
      (hkept : ∀ l, Ref.layout l ∈ s.roots → Ref.layout l ∈ s'.roots) : FoundingStep s s'

/-- Any number of such steps. -/
abbrev FoundingRun : Store → Store → Prop := Relation.ReflTransGen FoundingStep

/-- A store that such a program can come to. -/
def Founding (s : Store) : Prop := ∃ names, FoundingRun (.new names) s

/-- The layouts of scopes are held, and so are those that others are linked to. Only what is linked to a layout is
    its child. -/
structure Founded (s : Store) : Prop where
  scopes : ∀ b, s.Allocated (.activation b) → Ref.layout (s.layoutOf b) ∈ s.roots
  parents : ∀ l p, (s.layout l).enclosing = some p → Ref.layout p ∈ s.roots
  children : ∀ p c, c ∈ (s.layout p).children → (s.layout c).enclosing = some p

namespace Founded

theorem parentsOutlive (h : s.Founded) : s.ParentsOutlive :=
  fun l p hp _ => live_of_mem_roots (h.parents l p hp)

/-- Every link leads to a parent alive. -/
theorem parent (h : s.Founded) (hs : s.WellFormed) (l : LayoutId) : s.parent l = (s.layout l).enclosing := by
  cases hp : (s.layout l).enclosing with
  | none =>
      rw [Store.parent, hp]
      rfl
  | some p => exact (parent_eq_some_iff hs).2 ⟨hp, live_of_mem_roots (h.parents l p hp)⟩

/-- Only layouts without a link are hooked. -/
theorem settles (h : s.Founded) (hs : s.WellFormed) (hhooks : s.Hooks s₁)
    (hlinked : ∀ b, s.Allocated (.activation b) →
      (s₁.layout (s.layoutOf b)).enclosing = (s.layout (s.layoutOf b)).enclosing) : s.Settles s₁ := by
  -- What is hooked had no link before, and is not the layout of a scope.
  rintro k (hk | ⟨b, hb, rfl⟩)
  · cases hhooks with
    | stay hlinks _ => exact hlinks k
    | hook l p hfree _ hlinks _ =>
        rw [h.parent hs] at hfree
        rw [hlinks, if_neg]
        rintro rfl
        exact hk hfree
  · exact hlinked b hb

/-- A scope is made of a layout that is held. -/
theorem scopes_perform (h : s.Founded) (hs : s.Sound) {op : Operation} (hop : op.isLexical = true)
    (hheld : ∀ r ∈ op.operands, r ∈ s.roots) (b : ActivationId)
    (hb : (op.perform s).Allocated (.activation b)) :
    Ref.layout ((op.perform s).layoutOf b) ∈ (op.perform s).roots := by
  have hroots := (keepsCalls_perform s op).held
  have hold : s.KeepsChains (op.perform s) → Ref.layout ((op.perform s).layoutOf b) ∈ (op.perform s).roots := by
    intro hchains
    rw [hchains.layoutOf]
    exact hroots _ (h.scopes b (Nat.lt_of_lt_of_eq hb hchains.size))
  by_cases hlocal : op.isLocal = true
  · exact hold (keepsChains_local s hlocal)
  · cases op with
    | newLayout label kind policy => exact hold (keepsChains_of_eq rfl)
    | initializeEnclosing l parent => exact hold (keepsChains_of_eq (onlyScopes_initializeEnclosing s l parent).2)
    | newScope l enclosing depth =>
        obtain ⟨hl, he⟩ := held_optional hheld
        have hopens := opens_perform hs hl he depth
        by_cases hbefore : s.Allocated (.activation b)
        · rw [layoutOf, hopens.old b hbefore, ← layoutOf]
          exact hroots _ (h.scopes b hbefore)
        · rw [(hopens.new b hb hbefore).1]
          exact hroots _ hl
    | _ => exact absurd hop hlocal

/-- A layout is hooked to one that is held. -/
theorem parents_hooked (h : s.Founded) (hs : s.WellFormed) (hhooks : s.Hooks s₁)
    (hroots : ∀ r ∈ s.roots, r ∈ s₁.roots) {k q : LayoutId} (hq : (s₁.layout k).enclosing = some q) :
    Ref.layout q ∈ s₁.roots := by
  apply hroots
  cases hhooks with
  | stay hlinks _ =>
      rw [hlinks] at hq
      exact h.parents k q hq
  | hook l p _ hp hlinks _ =>
      rw [hlinks] at hq
      split at hq
      · obtain rfl := Option.some.inj hq
        rcases hp with hp | ⟨e, he, rfl⟩
        · exact hp
        · exact h.scopes e (hs.roots _ he)
      · exact h.parents k q hq

/-- What is hooked had no parent, so it is a child of its new parent only. -/
theorem children_hooked (h : s.Founded) (hs : s.WellFormed) (hhooks : s.Hooks s₁) {q c : LayoutId}
    (hc : c ∈ (s₁.layout q).children) : (s₁.layout c).enclosing = some q := by
  cases hhooks with
  | stay hlinks hchildren =>
      rw [hchildren] at hc
      rw [hlinks]
      exact h.children q c hc
  | hook l p hfree _ hlinks hchildren =>
      rw [h.parent hs] at hfree
      rw [hlinks]
      rcases (hchildren q c).1 hc with hold | ⟨rfl, rfl⟩
      · have hlink := h.children q c hold
        rw [if_neg]
        · exact hlink
        · rintro rfl
          cases hfree.symm.trans hlink
      · exact if_pos rfl

theorem perform (h : s.Founded) (hs : s.Sound) {op : Operation} (hop : op.isLexical = true)
    (hheld : ∀ r ∈ op.operands, r ∈ s.roots) : (op.perform s).Founded := by
  have hhooks := hooks_perform hs hop hheld
  constructor
  case scopes => exact h.scopes_perform hs hop hheld
  case parents => exact fun _ _ hq => h.parents_hooked hs.wellFormed hhooks (keepsCalls_perform s op).held hq
  case children => exact fun _ _ hc => h.children_hooked hs.wellFormed hhooks hc

theorem elsewhere (h : s.Founded) (hs : s.Elsewhere s₁)
    (hkept : ∀ l, Ref.layout l ∈ s.roots → Ref.layout l ∈ s₁.roots) : s₁.Founded := by
  have habides := hs.abides
  constructor
  case scopes =>
    intro b hb
    rw [habides.layoutOf]
    exact hkept _ (h.scopes b (Nat.lt_of_lt_of_eq hb habides.size))
  case parents =>
    intro l p hp
    rw [hs.layout] at hp
    exact hkept _ (h.parents l p hp)
  case children =>
    intro p c hc
    rw [hs.layout] at hc ⊢
    exact h.children p c hc

end Founded

theorem founded_new (names : List String) : (Store.new names).Founded := by
  constructor
  case scopes => exact fun b hb => absurd hb (Nat.not_lt_zero _)
  case parents => exact fun l p hp => by cases hp
  case children => exact fun p c hc => by cases hc

/-- **Each step is a lexical one, and keeps layouts founded.** -/
theorem FoundingStep.lexical (hstep : s.FoundingStep s₁) (h : s.Founded) (hs : s.Sound) :
    s.LexicalStep s₁ ∧ s₁.Founded := by
  cases hstep with
  | operate op hop hheld hlinked =>
      have hfounded := h.perform hs hop hheld
      have hsettles := h.settles hs.wellFormed (hooks_perform hs hop hheld) hlinked
      exact ⟨.operate op hop hheld hsettles hfounded.parentsOutlive, hfounded⟩
  | elsewhere helse hkept =>
      have hfounded := h.elsewhere helse hkept
      exact ⟨.elsewhere helse hfounded.parentsOutlive, hfounded⟩

/-! ## Runs -/

theorem FoundingRun.lexical (hrun : FoundingRun s s₁) (h : s.Founded) (hs : s.Sound) :
    LexicalRun s s₁ ∧ s₁.Sound ∧ s₁.Founded := by
  induction hrun with
  | refl => exact ⟨.refl, hs, h⟩
  | tail _ hstep ih =>
      obtain ⟨hlexical, hs₁, h₁⟩ := ih
      obtain ⟨hlast, h₂⟩ := hstep.lexical h₁ hs₁
      exact ⟨hlexical.tail hlast, (hlast.step.progress hs₁).sound, h₂⟩

/-- Where layouts are linked before they are used, reading is walking. -/
theorem Founding.lexical (h : Founding s) : Lexical s ∧ s.Founded := by
  obtain ⟨names, hrun⟩ := h
  obtain ⟨hlexical, -, hfounded⟩ := hrun.lexical (founded_new names) (sound_new names)
  exact ⟨⟨names, hlexical⟩, hfounded⟩

/-- Whether an operation is lexical, and links no layout that a scope has been made of. -/
def foundsFirst (s : Store) (op : Operation) : Bool :=
  op.isLexical && (List.range s.activations.size).all fun i =>
    ((op.perform s).layout (s.layoutOf ⟨i⟩)).enclosing == (s.layout (s.layoutOf ⟨i⟩)).enclosing

theorem FoundingRun.of_allFit {ops : List Operation} (h : allFit foundsFirst s ops = true) :
    FoundingRun s (ops.foldl Operation.perform s) := by
  refine steps_of_allFit (fun s op hheld hfit => ?_) h
  obtain ⟨hop, hlinked⟩ := Bool.and_eq_true_iff.1 hfit
  refine .operate op hop hheld fun b hb => ?_
  exact eq_of_beq (List.all_eq_true.1 hlinked b.index (List.mem_range.2 hb))

end Store

end ScopeCall
