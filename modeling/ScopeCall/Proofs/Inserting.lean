import ScopeCall.Proofs.Moving

/-!
# `ScopeCall.Proofs.Inserting` — scopes that are inserted between two others

A scope that is inserted carries on the lookups that cross the place. None of them is for a name that it
binds, since those have been swept away, and it takes over what was recorded behind it; so a slot that it
comes to have later still reaches them.

## Contents
- **Links.** What `spliced` makes of them.
- **Traces.** `Trace.spliced`: a trace that crosses the place goes on through the inserted layout.
- **Scopes.** `Store.Insertable`, and the scopes after one has been inserted.
- **Inserting.** `retraces_attach`.
-/

namespace ScopeCall

namespace Store

variable {s s₁ s₂ : Store} {alive : LayoutId → Prop} {a : ActivationId}

/-! ## Links -/

section Spliced

variable {l i old : LayoutId}

theorem rewires_spliced (s : Store) (l i old : LayoutId) : s.Rewires (s.spliced l i old) := by
  have hlinked := (rewires_relinked s i (some old)).trans (rewires_relinked _ l (some i))
  have hadded := hlinked.trans (rewires_addChild _ i l)
  exact (hadded.trans (rewires_removeChild _ old l)).trans (rewires_addChild _ old i)

theorem activations_spliced (s : Store) (l i old : LayoutId) :
    (s.spliced l i old).activations = s.activations := by
  unfold spliced
  dsimp only
  rw [activations_addChild, activations_removeChild, activations_addChild, activations_relinked,
    activations_relinked]

theorem enclosing_spliced (hl : s.Allocated (.layout l)) (hi : s.Allocated (.layout i))
    (k : LayoutId) : ((s.spliced l i old).layout k).enclosing
      = if k = l then some i else if k = i then some old else (s.layout k).enclosing := by
  have hl₁ := ((rewires_relinked s i (some old)).allocated_layout l).2 hl
  unfold spliced
  dsimp only
  rw [enclosing_addChild, enclosing_removeChild, enclosing_addChild, enclosing_relinked hl₁,
    enclosing_relinked hi]

/-- Other children stay, and the new links are registered. -/
theorem mem_children_spliced (hi : s.Allocated (.layout i)) (ho : s.Allocated (.layout old))
    (hne : i ≠ old) {k c : LayoutId}
    (hc : c ∈ (s.layout k).children ∧ c ≠ l ∨ k = i ∧ c = l ∨ k = old ∧ c = i) :
    c ∈ ((s.spliced l i old).layout k).children := by
  have hlinked := (rewires_relinked s i (some old)).trans (rewires_relinked _ l (some i))
  have hadded := (hlinked.trans (rewires_addChild _ i l)).trans (rewires_removeChild _ old l)
  unfold spliced
  dsimp only
  rw [mem_children_addChild ((hadded.allocated_layout old).2 ho)]
  rcases hc with ⟨hin, hcl⟩ | ⟨rfl, rfl⟩ | hc
  · refine Or.inl (mem_children_removeChild ?_ (Or.inr hcl))
    rw [mem_children_addChild ((hlinked.allocated_layout i).2 hi), children_relinked,
      children_relinked]
    exact Or.inl hin
  · refine Or.inl (mem_children_removeChild ?_ (Or.inl hne))
    rw [mem_children_addChild ((hlinked.allocated_layout k).2 hi)]
    exact Or.inr ⟨rfl, rfl⟩
  · exact Or.inr hc

/-! ## Traces -/

/-- **A trace that crosses the place where a layout is inserted goes on through that layout**: it passes
    on what was recorded behind it, for the names that it does not bind. -/
theorem Trace.spliced {n : Name} {k : LayoutId} {f : Finding}
    (ht : s.Trace (fun _ _ => False) n k f) (hview : ∀ k, s₁.view k n = s.view k n)
    (hrecorded : ∀ k, n ∈ (s.layout k).recorded → n ∈ (s₁.layout k).recorded)
    (hother : ∀ k, k ≠ l → k ≠ i → (s₁.layout k).enclosing = (s.layout k).enclosing)
    (hold : (s.layout l).enclosing = some old) (hl : (s₁.layout l).enclosing = some i)
    (hi : (s₁.layout i).enclosing = some old) (hfresh : n ∉ (s.layout i).recorded)
    (hpass : n ∈ (s.layout l).recorded → s₁.view i n = .passOn)
    (hinherit : n ∈ (s.layout old).recorded → n ∈ (s₁.layout i).recorded) :
    s₁.Trace (fun _ _ => False) n k f := by
  induction ht with
  | pending _ hp => exact hp.elim
  | stop hr hv => exact .stop (hrecorded _ hr) ((hview _).trans hv)
  | @root k hr hv he =>
      have hki : k ≠ i := by
        rintro rfl
        exact hfresh hr
      have hkl : k ≠ l := by
        rintro rfl
        exact absurd (he.symm.trans hold) (by simp)
      exact .root (hrecorded _ hr) ((hview _).trans hv) ((hother k hkl hki).trans he)
  | @up k p f hr hv he htail ih =>
      by_cases hkl : k = l
      · subst hkl
        obtain rfl := Option.some.inj (he.symm.trans hold)
        exact .up (hrecorded _ hr) ((hview _).trans hv) hl
          (.up (hinherit htail.recorded) (hpass hr) hi ih)
      · have hki : k ≠ i := by
          rintro rfl
          exact hfresh hr
        exact .up (hrecorded _ hr) ((hview _).trans hv) ((hother k hkl hki).trans he) ih

end Spliced

/-! ## Scopes -/

section Attach

variable {inserted o : ActivationId}

/-- One scope can be inserted between another and the scope `o` that encloses it. -/
structure Insertable (s : Store) (a inserted o : ActivationId) : Prop where
  sound : s.Sound
  held : Ref.activation a ∈ s.roots
  heldInserted : Ref.activation inserted ∈ s.roots
  alone : (s.layout (s.layoutOf a)).kind.isSingleton = true
  aloneInserted : (s.layout (s.layoutOf inserted)).kind.isSingleton = true
  ne : inserted ≠ a
  free : ¬ s.Inside a inserted
  enclosing : (s.activation a).enclosing = some o

namespace Insertable

theorem live (h : s.Insertable a inserted o) : s.Live (.activation a) := live_of_mem_roots h.held

theorem liveInserted (h : s.Insertable a inserted o) : s.Live (.activation inserted) :=
  live_of_mem_roots h.heldInserted

theorem liveOuter (h : s.Insertable a inserted o) : s.Live (.activation o) :=
  h.live.enclosing h.sound.wellFormed h.enclosing

theorem allocatedLayout (h : s.Insertable a inserted o) {b : ActivationId} (hb : s.Live (.activation b)) :
    s.Allocated (.layout (s.layoutOf b)) :=
  (hb.layoutOf h.sound.wellFormed).allocated h.sound.wellFormed

/-- The layouts of the three scopes are different ones. -/
theorem layouts_ne (h : s.Insertable a inserted o) : s.layoutOf inserted ≠ s.layoutOf a
    ∧ s.layoutOf inserted ≠ s.layoutOf o := by
  constructor
  · intro heq
    exact h.ne (h.sound.eq_of_layoutOf h.live h.alone (h.sound.current h.liveInserted) heq)
  · intro heq
    have hoi := h.sound.eq_of_layoutOf h.liveInserted h.aloneInserted
      (h.sound.current h.liveOuter) heq.symm
    exact h.free (.single (hoi ▸ h.enclosing))

/-- Changes of other things leave it possible. -/
theorem spares (h : s.Insertable a inserted o) (hs : s.Spares s₁)
    (hact : s₁.activations = s.activations) : s₁.Insertable a inserted o := by
  have hadv := hs.advances h.sound
  have hsame : s₁.activation = s.activation := funext fun b => by
    rw [activation, hact, ← activation]
  have hlayoutOf := layoutOf_congr hact
  refine ⟨hadv.sound h.sound, hadv.mem_roots h.held, hadv.mem_roots h.heldInserted, ?_, ?_, h.ne, ?_,
    ?_⟩
  · rw [hlayoutOf, hs.kind _ (h.allocatedLayout h.live)]
    exact h.alone
  · rw [hlayoutOf, hs.kind _ (h.allocatedLayout h.liveInserted)]
    exact h.aloneInserted
  · rw [Inside, hsame]
    exact h.free
  · rw [hsame]
    exact h.enclosing

/-- The links of the layouts are those of the activations. -/
theorem link (h : s.Insertable a inserted o) (hn : s.Nested) :
    (s.layout (s.layoutOf a)).enclosing = some (s.layoutOf o) := by
  rw [hn.along a (h.sound.current h.live), h.enclosing]
  rfl

end Insertable

/-- The store after a scope has been inserted, but for the sweeps. -/
def joinedBetween (s : Store) (a inserted o : ActivationId) : Store :=
  ((s.spliced (s.layoutOf a) (s.layoutOf inserted) (s.layoutOf o)).setEnclosingLink a
    (some inserted)).setEnclosingLink inserted (some o)

theorem rewires_joinedBetween (s : Store) (a inserted o : ActivationId) :
    s.Rewires (s.joinedBetween a inserted o) :=
  ((rewires_spliced s _ _ _).trans (rewires_setEnclosingLink _ a _)).trans
    (rewires_setEnclosingLink _ inserted _)

theorem enclosing_joinedBetween (h : s.Insertable a inserted o) (b : ActivationId) :
    ((s.joinedBetween a inserted o).activation b).enclosing
      = if b = inserted then some o else if b = a then some inserted
        else (s.activation b).enclosing := by
  have hspliced := rewires_spliced s (s.layoutOf a) (s.layoutOf inserted) (s.layoutOf o)
  have hlinked := hspliced.trans (rewires_setEnclosingLink _ a (some inserted))
  have ha := (hspliced.allocated_activation a).2 (h.live.allocated h.sound.wellFormed)
  have hi := (hlinked.allocated_activation inserted).2 (h.liveInserted.allocated h.sound.wellFormed)
  unfold joinedBetween
  rw [enclosing_setEnclosingLink hi, enclosing_setEnclosingLink ha, activation, activations_spliced,
    ← activation]

theorem link_joinedBetween (h : s.Insertable a inserted o) (k : LayoutId) :
    ((s.joinedBetween a inserted o).layout k).enclosing
      = if k = s.layoutOf a then some (s.layoutOf inserted)
        else if k = s.layoutOf inserted then some (s.layoutOf o) else (s.layout k).enclosing := by
  unfold joinedBetween
  rw [layout_setEnclosingLink, layout_setEnclosingLink]
  exact enclosing_spliced (h.allocatedLayout h.live) (h.allocatedLayout h.liveInserted) k

/-- Inserting a scope closes no circle, since it does not enclose the other. -/
theorem acyclic_joinedBetween (h : s.Insertable a inserted o) (hacyclic : ∀ b, ¬ s.Inside b b)
    (b : ActivationId) : ¬ (s.joinedBetween a inserted o).Inside b b := by
  have hact := enclosing_joinedBetween h
  -- First the inserted scope is moved, and then the other is moved into it.
  have hmoved : ∀ b, ((s.setEnclosingLink inserted (some o)).activation b).enclosing
      = if b = inserted then some o else (s.activation b).enclosing :=
    enclosing_setEnclosingLink (h.liveInserted.allocated h.sound.wellFormed) (some o)
  have hout : ∀ p, ((s.setEnclosingLink inserted (some o)).activation inserted).enclosing = some p →
      p ≠ inserted ∧ ¬ s.Inside p inserted := by
    intro p hp
    rw [hmoved, if_pos rfl] at hp
    obtain rfl := Option.some.inj hp
    refine ⟨?_, fun hin => h.free (.head h.enclosing hin)⟩
    rintro rfl
    exact h.free (.single h.enclosing)
  have hother : ∀ b, b ≠ inserted → ((s.setEnclosingLink inserted (some o)).activation b).enclosing
      = (s.activation b).enclosing := fun b hb => (hmoved b).trans (if_neg hb)
  refine acyclic_of_link (s := s.setEnclosingLink inserted (some o)) (a := a) (fun b hb => ?_)
    (fun p hp => ?_) (acyclic_of_link hother hout hacyclic) b
  · rw [hact, hmoved, if_neg hb]
  · rw [hact, if_neg h.ne.symm, if_pos rfl] at hp
    obtain rfl := Option.some.inj hp
    refine ⟨h.ne, fun hin => ?_⟩
    rcases inside_of_link hother hout hin with ⟨hself, -⟩ | ⟨-, q, hq, hqa⟩
    · exact hself rfl
    · rw [hmoved, if_pos rfl] at hq
      obtain rfl := Option.some.inj hq
      rcases hqa with rfl | hin
      · exact hacyclic o (.single h.enclosing)
      · exact hacyclic a (.head h.enclosing hin)

/-- A scope that is inserted is nested as its layout is, and so is every other. -/
theorem Nested.joinedBetween (h : s.Nested) (hins : s.Insertable a inserted o) :
    (s.joinedBetween a inserted o).Nested := by
  have hact := enclosing_joinedBetween hins
  have hlink := link_joinedBetween hins
  have halone : ∀ b, s.Current b → s.layoutOf b = s.layoutOf a → b = a := fun _ =>
    hins.sound.eq_of_layoutOf hins.live hins.alone
  have halone' : ∀ b, s.Current b → s.layoutOf b = s.layoutOf inserted → b = inserted := fun _ =>
    hins.sound.eq_of_layoutOf hins.liveInserted hins.aloneInserted
  refine h.rewired (rewires_joinedBetween s a inserted o) (fun b hb => ?_)
    (acyclic_joinedBetween hins h.acyclic) fun k q hq => ?_
  · rw [hlink, hact]
    by_cases hbi : b = inserted
    · subst hbi
      rw [if_neg hins.layouts_ne.1, if_pos rfl, if_pos rfl]
      rfl
    · rw [if_neg hbi]
      by_cases hba : b = a
      · subst hba
        rw [if_pos rfl, if_pos rfl]
        rfl
      · rw [if_neg hba, if_neg fun hc => hba (halone b hb hc), if_neg fun hc => hbi (halone' b hb hc)]
        exact h.along b hb
  · rw [hlink] at hq
    unfold Store.joinedBetween
    rw [layout_setEnclosingLink, layout_setEnclosingLink]
    apply mem_children_spliced (hins.allocatedLayout hins.liveInserted)
      (hins.allocatedLayout hins.liveOuter) hins.layouts_ne.2
    split at hq
    · rename_i hkl
      exact Or.inr (Or.inl ⟨(Option.some.inj hq).symm, hkl⟩)
    · rename_i hkl
      split at hq
      · rename_i hki
        exact Or.inr (Or.inr ⟨(Option.some.inj hq).symm, hki⟩)
      · exact Or.inl ⟨h.registered k q hq, hkl⟩

/-! ## Records -/

/-- Nothing is left on record at the layout to be inserted, and nothing that it binds where it is to be
    inserted. -/
theorem cleared_records (hs : s.Sound) {l i : LayoutId} (hl : s.Allocated (.layout l))
    (hi : s.Allocated (.layout i)) (n : Name) :
    n ∉ ((s.cleared l i).layout i).recorded
      ∧ (n ∈ (s.layout i).identifiers → n ∉ ((s.cleared l i).layout l).recorded) := by
  have hsw := s.swept_invalidateAll i
  have hleads := ((Spares.refl s).invalidateAll i).leads
  have hfirst : n ∉ ((s.invalidateAll i).layout i).recorded :=
    not_recorded_sweep forgetting_forgetAll hs.wellFormed hi trivial
  have hnames : ((s.invalidateAll i).layout i).identifiers = (s.layout i).identifiers := by
    unfold Layout.identifiers
    rw [(hsw.layout i).slots]
  unfold cleared
  constructor
  · intro hn
    exact hfirst ((((s.invalidateAll i).swept_invalidateNames l _).layout i).recorded n hn)
  · intro hn
    rw [← hnames] at hn
    exact not_recorded_sweep (forgetting_forgetNames _) (hleads.wellFormed hs.wellFormed)
      (hleads.grows _ hl) hn

theorem retraces_cleared (h : s.Retraces alive fun _ _ => False) (hs : s.Sound) {l i : LayoutId}
    (hl : s.Allocated (.layout l)) (hi : s.Allocated (.layout i))
    (hup : ∀ k p, k ≠ i → alive k → (s.layout k).enclosing = some p → alive p)
    (hlasting : (s.cleared l i).Lasting alive) :
    (s.cleared l i).Retraces alive fun _ _ => False := by
  have hsw := s.swept_invalidateAll i
  have hspares := (Spares.refl s).invalidateAll i
  have hwf := hspares.leads.wellFormed hs.wellFormed
  have hfirst : (s.invalidateAll i).Retraces alive fun _ _ => False := by
    refine h.sweep forgetting_forgetAll hs.wellFormed hi (fun k p n hk _ he => ?_)
      (fun _ _ => False.elim) (hlasting.before ((Spares.refl _).invalidateNames l _).leads)
    by_cases hki : k = i
    · exact Or.inl hki
    · exact Or.inr (Or.inr (hup k p hki hk he))
  refine hfirst.sweep (forgetting_forgetNames _) hwf (hspares.leads.grows _ hl)
    (fun k p n hk hn he => Or.inr (Or.inr ?_)) (fun _ _ => False.elim) hlasting
  refine hup k p ?_ hk (by rwa [(hsw.layout k).eq] at he)
  rintro rfl
  exact not_recorded_sweep forgetting_forgetAll hs.wellFormed hi trivial hn

theorem view_of_not_mem {l : LayoutId} {n : Name} (hn : n ∉ (s.layout l).identifiers) :
    s.view l n = .passOn := by
  have hindex : (s.layout l).slotIndex? n = none := by
    rw [Layout.slotIndex?_eq, List.findIdx?_eq_none_iff]
    intro m hm
    rw [beq_eq_false_iff_ne]
    rintro rfl
    exact hn hm
  unfold view
  rw [hindex]

theorem layoutOf_inherited (s : Store) (i old : LayoutId) (b : ActivationId) :
    (s.inherited i old).layoutOf b = s.layoutOf b := rfl

/-- Taking over a record changes no part of a layout but its record. -/
theorem part_inherited {α : Type} (part : Layout → α)
    (hpart : ∀ (x : Layout) names, part (x.inherit names) = part x) (i old k : LayoutId) :
    part ((s.inherited i old).layout k) = part (s.layout k) :=
  layout_modifyLayout_congr s part i k _ (hpart _ _)

/-- The store in which a layout has taken over a record is nested as before. -/
theorem Nested.inherited (h : s.Nested) (hi : s.Current inserted) (old : LayoutId) :
    (s.inherited (s.layoutOf inserted) old).Nested := by
  refine h.same ⟨fun _ => Iff.rfl, fun _ => rfl, fun _ => rfl,
    part_inherited Layout.enclosing (fun _ _ => rfl) _ old,
    part_inherited Layout.children (fun _ _ => rfl) _ old,
    part_inherited Layout.singleton (fun _ _ => rfl) _ old,
    part_inherited Layout.kind (fun _ _ => rfl) _ old⟩ fun k n hn => ?_
  by_cases hk : k = s.layoutOf inserted
  · exact Or.inr ⟨inserted, hi, hk.symm⟩
  · unfold Store.inherited at hn
    rw [layout_modifyLayout_of_ne _ _ hk] at hn
    exact Or.inl hn

theorem recorded_inherited {i : LayoutId} (hi : s.Allocated (.layout i)) (old k : LayoutId) :
    ((s.inherited i old).layout k).recorded
      = (s.layout (if k = i then old else k)).recorded := by
  unfold inherited
  by_cases hk : k = i
  · subst hk
    rw [layout_modifyLayout_self s _ hi, if_pos rfl]
    rfl
  · rw [layout_modifyLayout_of_ne _ _ hk, if_neg hk]

theorem retains_inherited (s : Store) (i old : LayoutId) : s.Retains (s.inherited i old) :=
  .of_eq (fun _ hk => (Leads.allocated_modifyLayout _ _ _ _).2 hk)
    (fun k n => part_inherited (Layout.memo? · n) (fun _ _ => rfl) i old k) rfl rfl

theorem view_inherited (s : Store) (i old k : LayoutId) (n : Name) :
    (s.inherited i old).view k n = s.view k n :=
  view_of_layout n (part_inherited Layout.slots (fun _ _ => rfl) i old k)
    (part_inherited Layout.singleton (fun _ _ => rfl) i old k) rfl

/-- A scope is inserted where nothing is on record for what it binds. -/
theorem Retraces.attached (h : s.Retraces alive fun _ _ => False) (hins : s.Insertable a inserted o)
    (hfresh : ∀ n, n ∉ (s.layout (s.layoutOf inserted)).recorded)
    (hclear : ∀ n ∈ (s.layout (s.layoutOf inserted)).identifiers,
      n ∉ (s.layout (s.layoutOf a)).recorded) :
    ((s.inherited (s.layoutOf inserted) (s.layoutOf o)).joinedBetween a inserted o).Retraces alive
      fun _ _ => False := by
  have hins₁ : (s.inherited (s.layoutOf inserted) (s.layoutOf o)).Insertable a inserted o :=
    hins.spares ((Spares.refl s).inherit _ _) rfl
  have hnested := (h.toNested.inherited (hins.sound.current hins.liveInserted)
    (s.layoutOf o)).joinedBetween hins₁
  have hw := rewires_joinedBetween (s.inherited (s.layoutOf inserted) (s.layoutOf o)) a inserted o
  have hla := hins.allocatedLayout hins.live
  have hil := hins.allocatedLayout hins.liveInserted
  have hlink := link_joinedBetween hins₁
  simp only [layoutOf_inherited, part_inherited Layout.enclosing fun _ _ => rfl] at hlink
  have hview := fun k n => (hw.view k n).trans (view_inherited s _ _ k n)
  have hretains := (retains_inherited s _ _).trans hw.retains
  have hrecorded := fun k => (congrArg Layout.recorded (hw.layout k)).trans
    (recorded_inherited hil (s.layoutOf o) k)
  have hstable := hw.stable
  generalize (s.inherited (s.layoutOf inserted) (s.layoutOf o)).joinedBetween a inserted o = s₁
    at hnested hlink hview hretains hrecorded hstable ⊢
  have hne : s.layoutOf inserted ≠ s.layoutOf a := hins.layouts_ne.1
  refine h.convey hins.sound.wellFormed hnested hretains (fun t _ ht => ?_) fun n k r _ _ ht _ => ?_
  · rw [stableValid, hstable] at ht
    exact ht
  · refine ht.spliced (fun k => hview k n) (fun k hk => ?_) (fun k hkl hki => ?_) (hins.link h.toNested)
      ((hlink _).trans (if_pos rfl)) ?_ (hfresh n) (fun hn => ?_) fun hn => ?_
    · rw [hrecorded, if_neg]
      · exact hk
      · rintro rfl
        exact hfresh n hk
    · rw [hlink, if_neg hkl, if_neg hki]
    · exact (hlink _).trans ((if_neg hne).trans (if_pos rfl))
    · rw [hview]
      exact view_of_not_mem fun hin => hclear n hin hn
    · rw [hrecorded, if_pos rfl]
      exact hn

theorem spares_cleared (s : Store) (l i : LayoutId) : s.Spares (s.cleared l i) :=
  ((Spares.refl s).invalidateAll i).invalidateNames l _

theorem swept_cleared (s : Store) (l i : LayoutId) : s.Swept (s.cleared l i) :=
  (s.swept_invalidateAll i).trans (swept_invalidateNames _ l _)

/-- First the sweeps, then the record, then the links. -/
theorem attach_eq (hins : s.Insertable a inserted o)
    (hparent : s.parent (s.layoutOf a) = some (s.layoutOf o)) :
    ((attach a inserted).run.run s).2
      = ((s.cleared (s.layoutOf a) (s.layoutOf inserted)).inherited (s.layoutOf inserted)
        (s.layoutOf o)).joinedBetween a inserted o := by
  have hact : (s.cleared (s.layoutOf a) (s.layoutOf inserted)).activations = s.activations := by
    rw [(s.swept_cleared _ _).eq]
  have hlayoutOf := layoutOf_congr hact
  rw [attach_run, hparent]
  dsimp only
  unfold joinedBetween
  rw [layoutOf_inherited, layoutOf_inherited, layoutOf_inherited, hlayoutOf, activation,
    activations_spliced, inherited, modifyLayout, hact, ← activation, hins.enclosing]

/-- **Inserting a scope leaves no lookup behind that it makes wrong.** -/
theorem retraces_attach (h : s.Retraces alive fun _ _ => False) (hins : s.Insertable a inserted o)
    (hparent : s.parent (s.layoutOf a) = some (s.layoutOf o))
    (hup : ∀ k p, k ≠ s.layoutOf inserted → alive k → (s.layout k).enclosing = some p → alive p)
    (hlasting : ((attach a inserted).run.run s).2.Lasting alive) :
    ((attach a inserted).run.run s).2.Retraces alive fun _ _ => False := by
  rw [attach_eq hins hparent] at hlasting ⊢
  have hl := hins.allocatedLayout hins.live
  have hi := hins.allocatedLayout hins.liveInserted
  have hsw := s.swept_cleared (s.layoutOf a) (s.layoutOf inserted)
  have hspares := s.spares_cleared (s.layoutOf a) (s.layoutOf inserted)
  have hrecords := cleared_records hins.sound hl hi
  have hcleared := retraces_cleared h hins.sound hl hi hup
  generalize s.cleared (s.layoutOf a) (s.layoutOf inserted) = s₁ at *
  have hact : s₁.activations = s.activations := by rw [hsw.eq]
  have hins₁ := hins.spares hspares hact
  rw [← layoutOf_congr hact] at hlasting hrecords ⊢
  refine (hcleared (hlasting.before ?_)).attached hins₁ (fun n => (hrecords n).1) fun n hn => ?_
  · have hspliced := ((Spares.refl s₁).inherit (s₁.layoutOf inserted)
      (s₁.layout (s₁.layoutOf o)).recorded).spliced (hins₁.allocatedLayout hins₁.live)
      (hins₁.allocatedLayout hins₁.liveInserted) (hins₁.allocatedLayout hins₁.liveOuter)
    refine ((hspliced.setEnclosingLink a (some inserted) ?_).setEnclosingLink inserted (some o) ?_).leads
    · rintro p ⟨rfl⟩
      exact hins₁.liveInserted
    · rintro p ⟨rfl⟩
      exact hins₁.liveOuter
  · refine (hrecords n).2 ?_
    rwa [Layout.identifiers, (hsw.layout _).slots, ← Layout.identifiers] at hn

/-- What the links of the layouts are after a scope has been inserted. -/
theorem link_attach (hins : s.Insertable a inserted o)
    (hparent : s.parent (s.layoutOf a) = some (s.layoutOf o)) (k : LayoutId) :
    (((attach a inserted).run.run s).2.layout k).enclosing
      = if k = s.layoutOf a then some (s.layoutOf inserted)
        else if k = s.layoutOf inserted then some (s.layoutOf o) else (s.layout k).enclosing := by
  have hsw := s.swept_cleared (s.layoutOf a) (s.layoutOf inserted)
  have hspares := s.spares_cleared (s.layoutOf a) (s.layoutOf inserted)
  rw [attach_eq hins hparent]
  generalize s.cleared (s.layoutOf a) (s.layoutOf inserted) = s₁ at *
  have hact : s₁.activations = s.activations := by rw [hsw.eq]
  have hins₁ : (s₁.inherited (s.layoutOf inserted) (s.layoutOf o)).Insertable a inserted o :=
    (hins.spares hspares hact).spares ((Spares.refl s₁).inherit _ _) rfl
  have hlayoutOf := layoutOf_congr hact
  rw [link_joinedBetween hins₁, part_inherited Layout.enclosing fun _ _ => rfl,
    (hsw.layout k).eq]
  simp only [layoutOf_inherited, hlayoutOf]

end Attach

end Store

end ScopeCall
