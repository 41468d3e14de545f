import ScopeCall.Proofs.Hanging

/-!
# `ScopeCall.Proofs.Closing` — making functions

A closure is made with a layout of its own, which is hung below that of the scope closed over and has a slot
for each formal. Nothing refers to the layout until the function itself is made, so the layout is held on the
way, and let go of once the function holds it.

## Contents
- **Running.** `newClosure_run`.
- **Holding the layout.** `refs_slotted`: nothing is referred to from a layout that admits many activations
  and has just been made.
- **Soundness.** `progress_closing`.
- **Links.** `rehangs_closing`.
-/

namespace ScopeCall

namespace Store

variable {s s₁ : Store} {l : LayoutId} {enclosing : ActivationId}

/-! ## Running -/

/-- The store after a slot has been added for each formal. -/
def slotted (s : Store) (l : LayoutId) (fs : List Formal) : Store :=
  fs.foldl (fun s f => ((findOrAddSlot l f.name).run s).2) s

/-- The store after a function has been added, with the target of its calls. -/
def addFunction (s : Store) (t : CallTarget) (c : Callable) : Store :=
  { s with targets := s.targets.push t, callables := s.callables.push c }

theorem slotted_run (l : LayoutId) (fs : List Formal) (s : Store) :
    (fs.forM fun f => discard (findOrAddSlot l f.name) : FaultM Unit).run.run s = (.ok (), s.slotted l fs) := by
  induction fs generalizing s with
  | nil => rfl
  | cons f fs ih => exact ih ((findOrAddSlot l f.name).run s).2

/-- The store with the layout of a closure, before there is the closure. -/
def enclosed (s : Store) (spec : CallableSpec) (enclosing : ActivationId) : Store :=
  (((newLayout (spec.label.getD CallableSpec.anonymous) .function {}).run s).2.linked ⟨s.layouts.size⟩
    (s.layoutOf enclosing)).slotted ⟨s.layouts.size⟩ spec.formals

/-- A layout is made without a parent, and without slots and results. -/
theorem layout_newLayout (label : String) (kind : LayoutKind) (policy : BindingPolicy) (s : Store) :
    (((newLayout label kind policy).run s).2.layout ⟨s.layouts.size⟩).enclosing = none
      ∧ (((newLayout label kind policy).run s).2.layout ⟨s.layouts.size⟩).refs = []
      ∧ (((newLayout label kind policy).run s).2.layout ⟨s.layouts.size⟩).kind = kind := by
  have hlayout : ∀ {α : Type} (part : Layout → α) (s : Store) (x : Layout),
      part ((s.addLayout x).layout ⟨s.layouts.size⟩) = part x := fun part s x =>
    congrArg part ((layout_addLayout s x _).trans (if_pos rfl))
  exact ⟨hlayout Layout.enclosing _ _, hlayout Layout.refs _ _, hlayout Layout.kind _ _⟩

theorem newClosure_run (spec : CallableSpec) (enclosing : ActivationId) (body : BodyId) (s : Store) :
    (newClosure spec enclosing body).run.run s = (.ok ⟨(s.enclosed spec enclosing).callables.size⟩,
      (s.enclosed spec enclosing).addFunction { body, dedicated := false }
        (spec.build (.closure ⟨s.layouts.size⟩ enclosing ⟨(s.enclosed spec enclosing).targets.size⟩))) := by
  have hfree : ((newLayout (spec.label.getD CallableSpec.anonymous) .function {}).run s).2.parent
      ⟨s.layouts.size⟩ = none := by
    rw [parent, (layout_newLayout _ _ _ s).1]
    rfl
  have hid : ((newLayout (spec.label.getD CallableSpec.anonymous) .function {}).run s).1
      = ⟨s.layouts.size⟩ := rfl
  have hactivations : ((newLayout (spec.label.getD CallableSpec.anonymous) .function {}).run s).2.layoutOf
      enclosing = s.layoutOf enclosing := rfl
  unfold newClosure enclosed
  rw [run_lift_bind, hid, run_get_bind, run_bind, initializeEnclosing_run, hfree, hactivations]
  generalize ((newLayout (spec.label.getD CallableSpec.anonymous) .function {}).run s).2 = s₁
  dsimp only
  rw [run_bind, slotted_run]
  rfl

/-! ## Holding the layout -/

/-- A slot of a layout that admits many activations is not tracked, so nothing more is referred to. -/
theorem refs_findOrAddSlot (hk : (s.layout l).kind.isSingleton = false) (n : Name) {r : Ref}
    (hr : r ∈ (((findOrAddSlot l n).run s).2.layout l).refs) : r ∈ (s.layout l).refs := by
  rw [findOrAddSlot_run] at hr
  split at hr
  · exact hr
  · have hr := ((swept_invalidateNames _ l [n]).layout l).refs hr
    unfold widened at hr
    simp only [hk, Bool.false_eq_true, if_false] at hr
    rw [layout_modifyLayout] at hr
    split at hr
    · have hr : r ∈ ((s.layout l).addSlot _).refs := hr
      simpa [Layout.refs, Layout.addSlot] using hr
    · exact hr

theorem refs_slotted (fs : List Formal) (hk : (s.layout l).kind.isSingleton = false) {r : Ref}
    (hr : r ∈ ((s.slotted l fs).layout l).refs) : r ∈ (s.layout l).refs := by
  induction fs generalizing s with
  | nil => exact hr
  | cons f fs ih =>
      refine refs_findOrAddSlot hk f.name (ih ?_ hr)
      rw [(findOrAddSlot_spec s l f.name).1.kind, hk]

/-! ## Soundness -/

theorem advances_slotted (hs : s.Sound) (hl : s.Allocated (.layout l)) (fs : List Formal) :
    s.Advances (s.slotted l fs) := by
  induction fs generalizing s with
  | nil => exact .refl hs
  | cons f fs ih =>
      have hadd := advances_findOrAddSlot hs hl f.name
      exact hadd.trans hs (ih (hadd.sound hs) (hadd.leads.grows _ hl))

theorem fades_slotted {alive : LayoutId → Prop} (hs : s.Sound) (hl : s.Allocated (.layout l))
    (fs : List Formal) (hlasting : (s.slotted l fs).Lasting alive) : s.Fades alive (s.slotted l fs) := by
  induction fs generalizing s with
  | nil => exact .refl alive s
  | cons f fs ih =>
      have hadd := advances_findOrAddSlot hs hl f.name
      have hrest := advances_slotted (hadd.sound hs) (hadd.leads.grows _ hl) fs
      exact (fades_findOrAddSlot hs.wellFormed hl f.name (hlasting.before hrest.leads)).trans
        (ih (hadd.sound hs) (hadd.leads.grows _ hl) hlasting)

theorem Leads.addFunction (h : s.Leads s₁) (t : CallTarget) {c : Callable}
    (hrefs : ∀ r ∈ c.refs, s.Within s₁ r) : s.Leads (s₁.addFunction t c) := by
  have halloc : ∀ r, s₁.Allocated r → (s₁.addFunction t c).Allocated r := by
    intro r hr
    cases r <;> simp only [Allocated, Store.addFunction, Array.size_push] at hr ⊢ <;> omega
  refine h.extend halloc (fun r hr => Or.inl hr) (fun q r hr => ?_) fun k r hr => Or.inl hr
  cases q with
  | callable d =>
      simp only [Store.refs, Store.addFunction, Array.getElem?_push] at hr
      split at hr
      · exact Or.inr ((hrefs r hr).imp_right fun hn => ⟨hn.1, halloc r hn.2⟩)
      · exact Or.inl hr
  | _ => exact Or.inl hr

theorem Spares.addFunction (h : s.Spares s₁) (t : CallTarget) {c : Callable}
    (hrefs : ∀ r ∈ c.refs, s.Within s₁ r) : s.Spares (s₁.addFunction t c) :=
  ⟨h.leads.addFunction t hrefs, h.held, h.activations, h.slots, h.kind, h.singleton, h.layoutOf, h.contents,
    h.stable⟩

/-- The store after a closure has been made, and is held. -/
def closing (s : Store) (spec : CallableSpec) (enclosing : ActivationId) (body : BodyId) : Store :=
  match (newClosure spec enclosing body).run.run s with
  | (.ok c, s)    => s.acquire [.callable c]
  | (.error _, s) => s

/-- What is passed to the making of a closure. -/
def closureOperands (spec : CallableSpec) (enclosing : ActivationId) : List Ref :=
  .activation enclosing :: spec.formals.flatMap fun f => (f.default?.map Value.refs).getD []

theorem spares_newLayout (s : Store) (label : String) (kind : LayoutKind) (policy : BindingPolicy) :
    s.Spares ((newLayout label kind policy).run s).2 :=
  (((Spares.refl s).aside (aside_addGuard s (label ++ " has no active bindings"))).aside
    (aside_addGuard _ (label ++ " enclosing"))).addLayout rfl rfl rfl rfl rfl

theorem advances_enclosed (hs : s.Sound) (spec : CallableSpec) (he : s.Live (.activation enclosing)) :
    s.Advances (s.enclosed spec enclosing) ∧ (s.enclosed spec enclosing).Allocated (.layout ⟨s.layouts.size⟩)
      ∧ ((s.enclosed spec enclosing).layout ⟨s.layouts.size⟩).refs = [] := by
  have hnew := (spares_newLayout s (spec.label.getD CallableSpec.anonymous) .function {}).advances hs
  have hl : ((newLayout (spec.label.getD CallableSpec.anonymous) .function {}).run s).2.Allocated
      (.layout ⟨s.layouts.size⟩) := Nat.lt_of_lt_of_eq (Nat.lt_succ_self _) (Array.size_push _).symm
  obtain ⟨-, hrefs, hkind⟩ := layout_newLayout (spec.label.getD CallableSpec.anonymous) .function {} s
  have hp := hnew.leads.grows _ ((he.layoutOf hs.wellFormed).allocated hs.wellFormed)
  unfold enclosed
  generalize ((newLayout (spec.label.getD CallableSpec.anonymous) .function {}).run s).2 = s₁ at *
  have hs₁ := hnew.sound hs
  have hlink := (((Spares.refl s₁).relinked ⟨s.layouts.size⟩ (some (s.layoutOf enclosing))
    (by rintro p ⟨rfl⟩; exact hp)).addChild (s.layoutOf enclosing) hl).advances hs₁
  have hw := rewires_linked s₁ ⟨s.layouts.size⟩ (s.layoutOf enclosing)
  have hslots := advances_slotted (hlink.sound hs₁) (hlink.leads.grows _ hl) spec.formals
  refine ⟨hnew.trans hs (hlink.trans hs₁ hslots), hslots.leads.grows _ (hlink.leads.grows _ hl),
    List.eq_nil_iff_forall_not_mem.2 fun r hr => ?_⟩
  have hr := refs_slotted spec.formals (by rw [hw.layout, hkind]; rfl) hr
  rw [hw.layout] at hr
  exact absurd (hrefs ▸ hr) List.not_mem_nil

/-- **Making a closure keeps a sound store sound.** -/
theorem progress_closing (hs : s.Sound) {spec : CallableSpec} (body : BodyId)
    (h : ∀ r ∈ closureOperands spec enclosing, r ∈ s.roots) : s.Progress (s.closing spec enclosing body) := by
  simp only [closureOperands, List.forall_mem_cons] at h
  obtain ⟨hadv, hl, hrefs⟩ := advances_enclosed hs spec (live_of_mem_roots h.1)
  have hnone : (s.enclosed spec enclosing).refs (.layout ⟨s.layouts.size⟩) = [] := (refs_layout hl).trans hrefs
  -- The layout is held until the function holds it.
  have hheld := hadv.progress_acquire hs hl (by simp [hnone]) (by rintro a ⟨⟩)
    (by rintro k ⟨rfl⟩; exact Nat.lt_irrefl _)
  have hroots : ∀ r ∈ (spec.build (.closure ⟨s.layouts.size⟩ enclosing
      ⟨(s.enclosed spec enclosing).targets.size⟩)).refs,
      r ∈ ((s.enclosed spec enclosing).acquire [.layout ⟨s.layouts.size⟩]).roots := by
    intro r hr
    have hkept : ∀ q, q ∈ s.roots → q ∈ ((s.enclosed spec enclosing).acquire [.layout ⟨s.layouts.size⟩]).roots :=
      fun q hq => (List.mem_append.1 (hadv.mem_roots hq)).elim (List.mem_append_left _)
        fun hin => List.mem_append_right _ (List.mem_cons_of_mem _ hin)
    rcases List.mem_append.1 hr with hr | hr
    · rcases List.mem_append.1 hr with hr | hr
      · obtain rfl := List.mem_singleton.1 hr
        exact List.mem_append_right _ List.mem_cons_self
      · obtain rfl := List.mem_singleton.1 hr
        exact hkept _ h.1
    · exact hkept r (h.2 r hr)
  rw [closing, newClosure_run]
  dsimp only
  generalize s.enclosed spec enclosing = s₂ at *
  generalize spec.build (.closure ⟨s.layouts.size⟩ enclosing ⟨s₂.targets.size⟩) = c at hroots ⊢
  have hs₃ := hheld.sound
  have hfun := (((Spares.refl _).addFunction { body, dedicated := false } fun r hr =>
    Or.inl (live_of_mem_roots (hroots r hr))).advances hs₃).progress_acquire hs₃
      (r := .callable ⟨s₂.callables.size⟩) (Nat.lt_of_lt_of_eq (Nat.lt_succ_self _) (Array.size_push _).symm)
      (fun r hr => live_of_mem_roots (hroots r (by simpa [refs, addFunction, acquire] using hr)))
      (by rintro a ⟨⟩) (by rintro k ⟨⟩)
  have hfree := (elsewhere_release _ [.layout ⟨s.layouts.size⟩]).progress hfun.sound
  have hlast := hheld.trans hs (hfun.trans hs₃ hfree)
  simpa [release, acquire, addFunction] using hlast

/-! ## Links -/

/-- A closure hangs its new layout below that of the scope closed over. -/
theorem links_closing (hs : s.Sound) (spec : CallableSpec) (he : s.Live (.activation enclosing)) (body : BodyId) :
    (∀ k, ((s.closing spec enclosing body).layout k).enclosing
      = if k = ⟨s.layouts.size⟩ then some (s.layoutOf enclosing) else (s.layout k).enclosing)
    ∧ (∀ k c, c ∈ ((s.closing spec enclosing body).layout k).children
      ↔ c ∈ (s.layout k).children ∨ k = s.layoutOf enclosing ∧ c = ⟨s.layouts.size⟩)
    ∧ (s.ListsOnce → (s.closing spec enclosing body).ListsOnce) := by
  have hnew : s.Fades (fun _ => False)
      ((newLayout (spec.label.getD CallableSpec.anonymous) .function {}).run s).2 := fades_newLayout s _ _ _
  have hspares := spares_newLayout s (spec.label.getD CallableSpec.anonymous) .function {}
  have hl : ((newLayout (spec.label.getD CallableSpec.anonymous) .function {}).run s).2.Allocated
      (.layout ⟨s.layouts.size⟩) := Nat.lt_of_lt_of_eq (Nat.lt_succ_self _) (Array.size_push _).symm
  have hp := hspares.leads.grows _ ((he.layoutOf hs.wellFormed).allocated hs.wellFormed)
  have hs₁ := (hspares.advances hs).sound hs
  rw [closing, newClosure_run]
  dsimp only
  unfold enclosed
  generalize ((newLayout (spec.label.getD CallableSpec.anonymous) .function {}).run s).2 = s₁ at *
  have hlink := (((Spares.refl s₁).relinked ⟨s.layouts.size⟩ (some (s.layoutOf enclosing))
    (by rintro p ⟨rfl⟩; exact hp)).addChild (s.layoutOf enclosing) hl).advances hs₁
  have hslots : (s₁.linked ⟨s.layouts.size⟩ (s.layoutOf enclosing)).Fades (fun _ => False)
      ((s₁.linked ⟨s.layouts.size⟩ (s.layoutOf enclosing)).slotted ⟨s.layouts.size⟩ spec.formals) :=
    fades_slotted (hlink.sound hs₁) (hlink.leads.grows _ hl) spec.formals fun _ => False.elim
  refine ⟨fun k => ?_, fun k c => ?_, fun h => ?_⟩
  · exact (hslots.enclosing k).trans ((enclosing_linked hl k).trans (by rw [hnew.enclosing]))
  · refine (iff_of_eq (congrArg (c ∈ ·) (hslots.children k))).trans ((mem_children_linked_iff hp).trans ?_)
    rw [hnew.children]
  · have hlinked := ((h.of_children hnew.children).relinked (l := ⟨s.layouts.size⟩)
      (some (s.layoutOf enclosing))).addChild (s.layoutOf enclosing) ⟨s.layouts.size⟩
    exact hlinked.of_children hslots.children

theorem rehangs_closing {inserts : LayoutId → LayoutId → Prop} (hs : s.Sound) (spec : CallableSpec)
    (he : s.Live (.activation enclosing)) (body : BodyId) :
    Rehangs inserts s (s.closing spec enclosing body) := by
  obtain ⟨henclosing, hchildren, honce⟩ := links_closing hs spec he body
  refine .hang ⟨s.layouts.size⟩ (some (s.layoutOf enclosing)) henclosing (fun k _ _ c => ?_) honce
  have hfree : (s.layout ⟨s.layouts.size⟩).enclosing = none := by
    simp [layout, default, instInhabitedLayout.default]
  rw [hchildren, hfree, Option.some_inj, eq_comm (a := s.layoutOf enclosing)]
  simp

end Store

end ScopeCall
