import ScopeCall.Proofs.Mirroring

/-!
# `ScopeCall.Proofs.Passing` — layouts that a lookup has passed

A lookup leaves its name on record at each layout that it passes, and its result at the layout where it
started. A change at a layout on the way takes the name from the record there, and so from all layouts below,
and the result with it. So as long as the result may be trusted, the name stays on record all the way up,
whatever is inserted there or taken out. This takes that layouts stay nested: below a layout that has died, no
sweep arrives.

## Contents
- **Ways.** `Store.RecordedUpTo`: a name is on record from a layout up to another.
- **Routes.** `Store.Guides`: what a change does to links on the way, and `Guides.recordedUpTo`.
- **Changes.** By sweeps and by lookups; of links after a sweep, and of layouts without a parent.
- **Operations.** `guides_perform`.
-/

namespace ScopeCall

namespace Store

variable {s s₁ s₂ : Store} {l j k p : LayoutId} {a : ActivationId} {n : Name}

/-! ## Ways -/

/-- A name is on record at a layout, at the layout around it, and so on up to `l`. -/
inductive RecordedUpTo (s : Store) (n : Name) (l : LayoutId) : LayoutId → Prop where
  | here (h : n ∈ (s.layout l).recorded) : RecordedUpTo s n l l
  | up {k p : LayoutId} (h : n ∈ (s.layout k).recorded) (hp : s.parent k = some p)
    (hpassed : RecordedUpTo s n l p) : RecordedUpTo s n l k

theorem RecordedUpTo.recorded (h : s.RecordedUpTo n l k) : n ∈ (s.layout k).recorded := by
  cases h with
  | here h => exact h
  | up h _ _ => exact h

theorem RecordedUpTo.recorded_last (h : s.RecordedUpTo n l k) : n ∈ (s.layout l).recorded := by
  induction h with
  | here h => exact h
  | up _ _ _ ih => exact ih

theorem RecordedUpTo.next (h : s.RecordedUpTo n l k) (hne : k ≠ l) (hp : s.parent k = some p) :
    s.RecordedUpTo n l p := by
  cases h with
  | here _ => exact absurd rfl hne
  | up _ hq hpassed =>
      obtain rfl := Option.some.inj (hq.symm.trans hp)
      exact hpassed

/-- No layout is nested in itself. -/
def Acyclic (s : Store) : Prop := ∀ k p, s.parent k = some p → ¬ s.NestedIn p k

theorem Acyclic.loopless (h : s.Acyclic) : s.Loopless := fun k _ hk => h ⟨k⟩ ⟨k⟩ hk .refl

/-! ## Routes -/

section Routes

variable {stays : LayoutId → Prop}

/-- What becomes of the link from `j` to `p`, where `stays` are the layouts at which the name is not forgotten. -/
inductive Reroutes (s s' : Store) (n : Name) (l : LayoutId) (stays : LayoutId → Prop) (j p : LayoutId) :
    Prop where
  | same (h : (s'.layout j).enclosing = some p) (hp : stays p)
  /-- A layout has been inserted on the way. -/
  | through (i : LayoutId) (h : (s'.layout j).enclosing = some i) (hi : n ∈ (s'.layout i).recorded)
    (hout : (s'.layout i).enclosing = some p) (hp : stays p)
  /-- The next layout has been taken out. -/
  | past (hne : p ≠ l) (h : (s'.layout j).enclosing = s.parent p)
    (hstays : ∀ g, s.parent p = some g → n ∈ (s.layout g).recorded → stays g)
  | cut (h : (s'.layout j).enclosing = none)

/-- A result that may be trusted is still remembered, and each link on the way to `l` has been rerouted. -/
structure Guides (s s' : Store) (n : Name) (l : LayoutId) (stays : LayoutId → Prop) : Prop where
  recorded : ∀ j, stays j → n ∈ (s'.layout j).recorded
  kept : ∀ k r, (s.layout k).memo? n = some r → s'.lookupValid r.guard = true →
    (s'.layout k).memo? n = some r ∧ (n ∈ (s.layout k).recorded → stays k)
  routes : ∀ j p, s.parent j = some p → n ∈ (s.layout p).recorded → stays j → s'.Live (.layout j) →
    s'.NestedIn j l → j ≠ l → s.Reroutes s' n l stays j p
  fallen : ∀ g, g.index < s.lookups.size → s'.lookupValid g = true → s.lookupValid g = true

/-- **A name stays on record all the way up**, from a layout that is alive and still nested. -/
theorem Guides.recordedUpTo (h : s.Guides s₁ n l stays) (hs₁ : s₁.WellFormed) (hk : s.RecordedUpTo n l k)
    (hstays : stays k) (hlive : s₁.Live (.layout k)) (hnested : s₁.NestedIn k l) : s₁.RecordedUpTo n l k := by
  -- The next layout may have been taken out, so the induction looks one layout further.
  have hboth : (stays k → s₁.Live (.layout k) → s₁.NestedIn k l → s₁.RecordedUpTo n l k)
      ∧ (k ≠ l → ∀ p, s.parent k = some p → stays p → s₁.Live (.layout p) → s₁.NestedIn p l →
        s₁.RecordedUpTo n l p) := by
    clear hstays hlive hnested
    induction hk with
    | here _ => exact ⟨fun hstays _ _ => .here (h.recorded _ hstays), fun hne => absurd rfl hne⟩
    | @up k p _ hp hpassed ih =>
        refine ⟨fun hstays hlive hnested => ?_, fun _ q hq => ?_⟩
        · have hrecorded := h.recorded _ hstays
          by_cases hkl : k = l
          · subst hkl
            exact .here hrecorded
          obtain heq | ⟨q, hq, hrest⟩ := hnested.cases_head
          · exact absurd heq hkl
          obtain ⟨hlink, hlive'⟩ := (parent_eq_some_iff hs₁).1 hq
          cases h.routes k p hp hpassed.recorded hstays hlive hnested hkl with
          | same hsame hp' =>
              obtain rfl := Option.some.inj (hlink.symm.trans hsame)
              exact .up hrecorded hq (ih.1 hp' hlive' hrest)
          | through i hi hin hout hp' =>
              obtain rfl := Option.some.inj (hlink.symm.trans hi)
              obtain rfl | ⟨m, hm, hlast⟩ := hrest.cases_head
              · exact .up hrecorded hq (.here hin)
              · obtain ⟨hlink', hlive''⟩ := (parent_eq_some_iff hs₁).1 hm
                obtain rfl := Option.some.inj (hlink'.symm.trans hout)
                exact .up hrecorded hq (.up hin hm (ih.1 hp' hlive'' hlast))
          | past hne hout hstays' =>
              have hg : s.parent p = some q := hout.symm.trans hlink
              have hin := (hpassed.next hne hg).recorded
              exact .up hrecorded hq (ih.2 hne q hg (hstays' q hg hin) hlive' hrest)
          | cut hnone => exact absurd (hlink.symm.trans hnone) (Option.some_ne_none q)
        · obtain rfl := Option.some.inj (hp.symm.trans hq)
          exact ih.1
  exact hboth.1 hstays hlive hnested

end Routes

/-! ## Changes -/

/-- What is forgotten at a layout is forgotten in the layouts below it that are alive. -/
theorem Fades.stays_above {alive : LayoutId → Prop} (h : s.Fades alive s₁) (hs : s.WellFormed)
    (hreg : s.Registered) (hp : s.parent j = some p) (hin : n ∈ (s.layout p).recorded) (hj : alive j)
    (hstays : n ∈ (s₁.layout j).recorded) : n ∈ (s₁.layout p).recorded := by
  obtain ⟨hlink, hlive⟩ := (parent_eq_some_iff hs).1 hp
  by_contra hgone
  exact h.passes p n hin hgone j (hreg p hlive j hlink) hj hstays

/-- After a sweep, links have been changed, and maybe the records of layouts where nothing was left. -/
theorem guides_of_fades (hs : s.WellFormed) (hreg : s.Registered)
    (h : s.Fades (fun k => s₂.Live (.layout k)) s₁)
    (hmemo : ∀ k, (s₂.layout k).memo? n = (s₁.layout k).memo? n) (hlookups : s₂.lookups = s₁.lookups)
    (hrecorded : ∀ j, n ∈ (s₁.layout j).recorded → n ∈ (s₂.layout j).recorded)
    (hroutes : ∀ j p, s.parent j = some p → n ∈ (s₁.layout j).recorded → n ∈ (s₁.layout p).recorded →
      s₂.NestedIn j l → j ≠ l → s.Reroutes s₂ n l (fun j => n ∈ (s₁.layout j).recorded) j p) :
    s.Guides s₂ n l fun j => n ∈ (s₁.layout j).recorded := by
  have hvalid : ∀ g, s₂.lookupValid g = true → s₁.lookupValid g = true := fun g hv => by
    rwa [lookupValid, lookup, hlookups] at hv
  refine ⟨hrecorded, fun k r hr hv => ?_, fun j p hp hin hstays hlive hnested hne => ?_,
    fun g _ hv => h.fallen g (hvalid g hv)⟩
  · rw [hmemo]
    exact h.kept k n r hr (hvalid _ hv)
  · exact hroutes j p hp hstays (h.stays_above hs hreg hp hin hlive hstays) hnested hne

theorem guides_fades (hs : s.WellFormed) (hreg : s.Registered)
    (h : s.Fades (fun k => s₁.Live (.layout k)) s₁) :
    s.Guides s₁ n l fun j => n ∈ (s₁.layout j).recorded :=
  guides_of_fades hs hreg h (fun _ => rfl) rfl (fun _ => id) fun j _ hp _ hstays _ _ =>
    .same ((h.enclosing j).trans (parent_eq_some hp)) hstays

theorem guides_adds (h : s.Adds s₁) : s.Guides s₁ n l fun j => n ∈ (s₁.layout j).recorded :=
  ⟨fun _ => id, fun k r hr hv => ⟨h.kept k n r hr hv, h.recorded k n⟩,
    fun j p hp hin _ _ _ _ => .same ((h.enclosing j).trans (parent_eq_some hp)) (h.recorded p n hin), h.fallen⟩

/-- A layout without a parent alive is on no way up. -/
theorem guides_linked (hs : s.WellFormed) (hreg : s.Registered) {i q : LayoutId}
    (hi : s.Allocated (.layout i)) (hq : s.Allocated (.layout q)) (hfree : s.parent i = none)
    (h : (s.linked i q).Fades (fun k => s₁.Live (.layout k)) s₁) :
    s.Guides s₁ n l fun j => n ∈ (s₁.layout j).recorded := by
  have hw := rewires_linked s i q
  have hmemo : ∀ k, ((s.linked i q).layout k).memo? n = (s.layout k).memo? n := fun k => by rw [hw.layout]; rfl
  have hrecorded : ∀ k, ((s.linked i q).layout k).recorded = (s.layout k).recorded := fun k => by rw [hw.layout]
  refine ⟨fun _ => id, fun k r hr hv => ?_, fun j p hp hin hstays hlive _ _ => ?_, fun g _ hv => ?_⟩
  · rw [← hmemo] at hr
    rw [← hrecorded]
    exact h.kept k n r hr hv
  · obtain ⟨hlink, hlivep⟩ := (parent_eq_some_iff hs).1 hp
    have hji : j ≠ i := by
      rintro rfl
      exact absurd (hp.symm.trans hfree) (Option.some_ne_none p)
    refine .same ((h.enclosing j).trans ((enclosing_linked hi j).trans ((if_neg hji).trans hlink))) ?_
    by_contra hgone
    exact h.passes p n (hrecorded p ▸ hin) hgone j (mem_children_linked hq (Or.inl (hreg p hlivep j hlink)))
      hlive hstays
  · have hold := h.fallen g hv
    rwa [lookupValid, lookup, hw.lookups] at hold

/-- Both sweeps before a scope is inserted. -/
theorem fades_cleared {alive : LayoutId → Prop} (hs : s.WellFormed) {x i : LayoutId}
    (hx : s.Allocated (.layout x)) (hi : s.Allocated (.layout i)) (hlasting : (s.cleared x i).Lasting alive) :
    s.Fades alive (s.cleared x i) := by
  have hfirst := ((Spares.refl s).invalidateAll i).leads
  exact (fades_invalidateAll hs hi (hlasting.before ((Spares.refl _).invalidateNames x _).leads)).trans
    (fades_invalidateNames (hfirst.wellFormed hs) (hfirst.grows _ hx) _ hlasting)

/-- A layout that has been swept is hung elsewhere. -/
theorem guides_rehung (hs : s.WellFormed) (hreg : s.Registered) {i : LayoutId}
    (hi : s.Allocated (.layout i)) {parent : Option LayoutId}
    (hlayouts : s₁.layouts = ((s.invalidateAll i).rehung i parent).layouts)
    (hlookups : s₁.lookups = ((s.invalidateAll i).rehung i parent).lookups)
    (hleads : (s.invalidateAll i).Leads s₁) :
    s.Guides s₁ n l fun j => n ∈ ((s.invalidateAll i).layout j).recorded := by
  have hw := rewires_rehung (s.invalidateAll i) i parent
  have hgrows := ((Spares.refl s).invalidateAll i).leads.grows
  have hlayout : ∀ k, s₁.layout k = ((s.invalidateAll i).rehung i parent).layout k := fun k => by
    rw [layout, hlayouts, ← layout]
  have hfades : s.Fades (fun k => s₁.Live (.layout k)) (s.invalidateAll i) :=
    fades_invalidateAll hs hi fun k hk hold => hleads.live hk hold
  refine guides_of_fades hs hreg hfades (fun k => by rw [hlayout, hw.layout]; rfl) (hlookups.trans hw.lookups)
    (fun k hk => by rwa [hlayout, hw.layout]) fun j p hp hj hstays _ _ => .same ?_ hstays
  have hji : j ≠ i := by
    rintro rfl
    exact not_recorded_sweep forgetting_forgetAll hs hi trivial hj
  rw [hlayout, enclosing_rehung (hgrows _ hi), if_neg hji, hfades.enclosing]
  exact parent_eq_some hp

/-- Between a layout and its parent another has been put, which has taken over the record of the parent. -/
theorem guides_inserted (hs : s.WellFormed) (hreg : s.Registered) {x i old : LayoutId}
    (hfades : s.Fades (fun k => s₂.Live (.layout k)) s₁) (hparent : s.parent x = some old) (hix : i ≠ x)
    (hnone : n ∉ (s₁.layout i).recorded)
    (hmemo : ∀ k, (s₂.layout k).memo? n = (s₁.layout k).memo? n) (hlookups : s₂.lookups = s₁.lookups)
    (hrecorded : ∀ k, (s₂.layout k).recorded = (s₁.layout (if k = i then old else k)).recorded)
    (henclosing : ∀ k, (s₂.layout k).enclosing
      = if k = x then some i else if k = i then some old else (s₁.layout k).enclosing) :
    s.Guides s₂ n l fun j => n ∈ (s₁.layout j).recorded := by
  have hne : ∀ {j}, n ∈ (s₁.layout j).recorded → j ≠ i := by
    rintro j hj rfl
    exact hnone hj
  refine guides_of_fades hs hreg hfades hmemo hlookups (fun j hj => ?_) fun j p hp hj hstays _ _ => ?_
  · rwa [hrecorded, if_neg (hne hj)]
  · by_cases hjx : j = x
    · subst hjx
      obtain rfl := Option.some.inj (hparent.symm.trans hp)
      exact .through i ((henclosing j).trans (if_pos rfl)) (by rwa [hrecorded, if_pos rfl])
        ((henclosing i).trans ((if_neg hix).trans (if_pos rfl))) hstays
    · refine .same ?_ hstays
      rw [henclosing, if_neg hjx, if_neg (hne hj), hfades.enclosing]
      exact parent_eq_some hp

theorem guides_attach (hs : s.Sound) (hreg : s.Registered) (ha : Ref.activation a ∈ s.roots) {b : ActivationId}
    (hb : Ref.activation b ∈ s.roots) (hloop : ((attach a b).run.run s).2.Loopless) :
    ∃ stays, s.Guides ((attach a b).run.run s).2 n l stays := by
  have hspares := spares_attach hs.wellFormed ha hb
  have hs₂ := hspares.leads.wellFormed hs.wellFormed
  have hlive := (hspares.onward.live hb).layoutOf hs₂
  rw [hspares.layoutOf] at hlive
  have hl := hs.wellFormed.layoutOf ha
  have hi := hs.wellFormed.layoutOf hb
  have hnone := (cleared_records hs hl hi n).1
  have hfades : ∀ alive, (s.cleared (s.layoutOf a) (s.layoutOf b)).Lasting alive →
      s.Fades alive (s.cleared (s.layoutOf a) (s.layoutOf b)) := fun _ => fades_cleared hs.wellFormed hl hi
  have hcleared := spares_cleared s (s.layoutOf a) (s.layoutOf b)
  rw [attach_run] at hs₂ hlive hloop ⊢
  split
  · exact ⟨_, guides_fades hs.wellFormed hreg (.refl _ s)⟩
  · rename_i old hparent
    rw [hparent] at hs₂ hlive hloop
    have hold := hs.wellFormed.enclosing (parent_eq_some hparent)
    dsimp only at hs₂ hlive hloop ⊢
    -- The store goes through four: it is swept, a record is taken over, and layouts and scopes are linked.
    generalize s.cleared (s.layoutOf a) (s.layoutOf b) = s₁ at *
    have hinherit : s₁.Spares (s₁.inherited (s.layoutOf b) old) := (Spares.refl s₁).inherit _ _
    have hgrows := hcleared.leads.grows
    have hpart : ∀ {α : Type} (part : Layout → α), (∀ x names, part (x.inherit names) = part x) → ∀ k,
        part ((s₁.inherited (s.layoutOf b) old).layout k) = part (s₁.layout k) := fun part hp =>
      part_inherited part hp (s.layoutOf b) old
    have hrecorded := recorded_inherited (hgrows _ hi) old
    have hlookups : (s₁.inherited (s.layoutOf b) old).lookups = s₁.lookups := rfl
    generalize s₁.inherited (s.layoutOf b) old = s₃ at *
    have hw := rewires_spliced s₃ (s.layoutOf a) (s.layoutOf b) old
    have hlinks := (hinherit.spliced (hgrows _ hl) (hgrows _ hi) (hgrows _ hold)).insertLinks
      (hcleared.leads.wellFormed hs.wellFormed) (hcleared.held ▸ ha) (hcleared.held ▸ hb)
    have henclosing : ∀ k, ((s₃.spliced (s.layoutOf a) (s.layoutOf b) old).layout k).enclosing = _ :=
      enclosing_spliced (hinherit.leads.grows _ (hgrows _ hl)) (hinherit.leads.grows _ (hgrows _ hi))
    generalize s₃.spliced (s.layoutOf a) (s.layoutOf b) old = s₄ at *
    have hix : s.layoutOf b ≠ s.layoutOf a := fun heq =>
      hloop.ne hs₂ (s.layoutOf b) ((parent_eq_some_iff hs₂).2
        ⟨(henclosing (s.layoutOf b)).trans (if_pos heq), hlive⟩)
    refine ⟨_, guides_inserted hs.wellFormed hreg (hfades _ fun k hk hold => hlinks.leads.live hk hold) hparent
      hix hnone (fun k => ?_) (hw.lookups.trans hlookups) (fun k => ?_) fun k => ?_⟩
    · rw [layout_setEnclosingLink, layout_setEnclosingLink, hw.layout]
      exact hpart (Layout.memo? · n) (fun _ _ => rfl) k
    · rw [layout_setEnclosingLink, layout_setEnclosingLink, hw.layout]
      exact hrecorded k
    · rw [layout_setEnclosingLink, layout_setEnclosingLink, henclosing, hpart Layout.enclosing fun _ _ => rfl]

/-- Names that a sweep is not for stay on record. -/
theorem mem_recorded_sweep {visit : Layout → Visit} {N : Name → Prop} (hv : Forgetting visit N)
    (hs : s.WellFormed) (hl : s.Allocated (.layout l)) (hn : ¬ N n) (h : n ∈ (s.layout k).recorded) :
    n ∈ ((sweep visit s.sweepBound [l] s).layout k).recorded := by
  obtain ⟨R, hsweeps, -⟩ := sweep_from hv hs hl
  by_cases hR : R k
  · rw [hsweeps.visited k hR]
    exact hv.keeps _ n hn h
  · rw [hsweeps.others k hR]
    exact h

/-- The parent `old` of a layout has been taken out, after a sweep for the names that it binds. -/
theorem guides_removed (hs : s.WellFormed) (hreg : s.Registered) (hacyclic : s.Acyclic) (hs₂ : s₂.WellFormed)
    {x old : LayoutId} (hfades : s.Fades (fun k => s₂.Live (.layout k)) s₁)
    (hback : ∀ k, s₂.Live (.layout k) → s.Allocated (.layout k) → s.Live (.layout k))
    (hparent : s.parent x = some old)
    (hnames : n ∈ (s₁.layout old).recorded → ∀ k, n ∈ (s.layout k).recorded → n ∈ (s₁.layout k).recorded)
    (hmemo : ∀ k, (s₂.layout k).memo? n = (s₁.layout k).memo? n) (hlookups : s₂.lookups = s₁.lookups)
    (hrecorded : ∀ k, (s₂.layout k).recorded = (s₁.layout k).recorded)
    (henclosing : ∀ k, (s₂.layout k).enclosing
      = if k = old then none else if k = x then s.parent old else (s.layout k).enclosing) :
    s.Guides s₂ n l fun j => n ∈ (s₁.layout j).recorded := by
  have hxo : x ≠ old := by
    rintro rfl
    exact hacyclic x x hparent .refl
  -- Every way up there is now was there before, with `old` on it.
  have hbefore : ∀ {j k}, s₂.NestedIn j k → s.NestedIn j k := fun h => by
    induction h with
    | refl => exact .refl
    | @tail j k _ hjk ih =>
        refine ih.trans ?_
        obtain ⟨hlink, hlive⟩ := (parent_eq_some_iff hs₂).1 hjk
        rw [henclosing] at hlink
        split at hlink
        · exact absurd hlink.symm (Option.some_ne_none k)
        · split at hlink
          · rename_i hjx
            subst hjx
            exact .tail (.single hparent) hlink
          · exact .single (parent_before hs hback hlink hlive)
  refine guides_of_fades hs hreg hfades hmemo hlookups (fun j hj => hrecorded j ▸ hj)
    fun j p hp hj hstays hnested hjl => ?_
  by_cases hjo : j = old
  · exact .cut ((henclosing j).trans (if_pos hjo))
  by_cases hjx : j = x
  · subst hjx
    obtain rfl := Option.some.inj (hparent.symm.trans hp)
    have hout : (s₂.layout j).enclosing = s.parent old := (henclosing j).trans ((if_neg hjo).trans (if_pos rfl))
    refine .past (fun hol => ?_) hout fun g _ hin => hnames hstays g hin
    -- A way from the layout around `old` back to `old` would be a circle.
    obtain heq | ⟨q, hq, hrest⟩ := hnested.cases_head
    · exact hjl heq
    · have hlink := parent_eq_some hq
      exact hacyclic old q (hout.symm.trans hlink) (hol ▸ hbefore hrest)
  · refine .same ?_ hstays
    rw [henclosing, if_neg hjo, if_neg hjx]
    exact parent_eq_some hp

theorem guides_detachEnclosing (hs : s.Sound) (hreg : s.Registered) (hacyclic : s.Acyclic)
    (ha : Ref.activation a ∈ s.roots) : ∃ stays, s.Guides ((detachEnclosing a).run.run s).2 n l stays := by
  have hwf := hs.wellFormed
  have hspares := spares_detachEnclosing hwf ha
  have hs₂ := hspares.leads.wellFormed hwf
  have hback : ∀ k, ((detachEnclosing a).run.run s).2.Live (.layout k) → s.Allocated (.layout k) →
      s.Live (.layout k) := fun k => hspares.leads.live
  have hl := hwf.layoutOf ha
  rw [detachEnclosing_run] at hs₂ hback ⊢
  split
  · exact ⟨_, guides_fades hwf hreg (.refl _ s)⟩
  · rename_i old hparent
    rw [hparent] at hs₂ hback
    have hold := hwf.enclosing (parent_eq_some hparent)
    have houter : ∀ g, s.parent old = some g → s.Allocated (.layout g) := fun g hg =>
      hwf.enclosing (parent_eq_some hg)
    have hfades : ∀ alive, (s.invalidateNames old (s.layout old).identifiers).Lasting alive →
        s.Fades alive (s.invalidateNames old (s.layout old).identifiers) := fun _ =>
      fades_invalidateNames hwf hold _
    have hnames : n ∈ ((s.invalidateNames old (s.layout old).identifiers).layout old).recorded → ∀ k,
        n ∈ (s.layout k).recorded →
          n ∈ ((s.invalidateNames old (s.layout old).identifiers).layout k).recorded := fun hin k =>
      mem_recorded_sweep (forgetting_forgetNames _) hwf hold fun hbound =>
        not_recorded_sweep (forgetting_forgetNames _) hwf hold hbound hin
    have hswept := (Spares.refl s).invalidateNames old (s.layout old).identifiers
    have hsw := s.swept_invalidateNames old (s.layout old).identifiers
    dsimp only at hs₂ hback ⊢
    generalize s.invalidateNames old (s.layout old).identifiers = s₁ at *
    have hgrows := hswept.leads.grows
    have hw := rewires_bypassed s₁ (s.layoutOf a) old (s.parent old)
    have hlinks := ((Spares.refl s₁).bypassed (hgrows _ hl) old fun g hg => hgrows _ (houter g hg)).removeLinks
      (hswept.leads.wellFormed hwf) (hswept.held ▸ ha)
    have henclosing := enclosing_bypassed (hgrows _ hl) (hgrows _ hold) (s.parent old)
    generalize s₁.bypassed (s.layoutOf a) old (s.parent old) = s₃ at *
    have hguides : ∀ s₂ : Store, s₂.layouts = s₃.layouts → s₂.lookups = s₃.lookups → s₂.WellFormed →
        (∀ k, s₂.Live (.layout k) → s.Allocated (.layout k) → s.Live (.layout k)) → s₁.Leads s₂ →
        s.Guides s₂ n l fun j => n ∈ (s₁.layout j).recorded := by
      intro s₂ hlayouts hlookups hs₂ hback hleads
      have hlayout : ∀ k, s₂.layout k = s₃.layout k := fun k => by rw [layout, hlayouts, ← layout]
      refine guides_removed hwf hreg hacyclic hs₂ (hfades _ fun k hk hold => hleads.live hk hold) hback hparent
        hnames (fun k => ?_) (hlookups.trans hw.lookups) (fun k => ?_) fun k => ?_
      · rw [hlayout, hw.layout]
        rfl
      · rw [hlayout, hw.layout]
      · rw [hlayout, henclosing, (hsw.layout k).eq]
    cases ho : (s₃.activation a).enclosing <;> rw [ho] at hs₂ hback hlinks
    · exact ⟨_, hguides _ rfl rfl hs₂ hback hlinks.leads⟩
    · exact ⟨_, hguides _ rfl rfl hs₂ hback hlinks.leads⟩

/-! ## Operations -/

theorem guides_newScope (hs : s.Sound) (hreg : s.Registered) {enclosing : Option ActivationId} {depth : Nat}
    (h : ∀ r ∈ (Operation.newScope k enclosing depth).operands, r ∈ s.roots) :
    ∃ stays, s.Guides ((Operation.newScope k enclosing depth).perform s) n l stays := by
  rcases fades_newScope hs h fun _ hk _ => hk with hfades | ⟨b, rfl, hfree, hfades⟩
  · exact ⟨_, guides_fades hs.wellFormed hreg hfades⟩
  · obtain ⟨hl, he⟩ := held_optional h
    exact ⟨_, guides_linked hs.wellFormed hreg (hs.wellFormed.roots _ hl) (hs.wellFormed.layoutOf (he b rfl)) hfree
      hfades⟩

theorem guides_initializeEnclosing (hs : s.WellFormed) (hreg : s.Registered) (hk : s.Allocated (.layout k))
    {parent : Option LayoutId} (hp : ∀ p, parent = some p → s.Allocated (.layout p)) :
    ∃ stays, s.Guides ((initializeEnclosing k parent).run.run s).2 n l stays := by
  rw [initializeEnclosing_run]
  split
  · rename_i p hfree
    exact ⟨_, guides_linked hs hreg hk (hp p rfl) hfree (.refl _ _)⟩
  · split <;> exact ⟨_, guides_fades hs hreg (.refl _ s)⟩

theorem guides_setEnclosing (hs : s.WellFormed) (hreg : s.Registered) (ha : Ref.activation a ∈ s.roots)
    {parent : Option ActivationId} (hp : ∀ b, parent = some b → Ref.activation b ∈ s.roots) :
    ∃ stays, s.Guides ((setEnclosing a parent).run.run s).2 n l stays := by
  have hswept := (Spares.refl s).invalidateAll (s.layoutOf a)
  have hgrows := hswept.leads.grows
  have houter : ∀ p, parent.map s.layoutOf = some p → s.Allocated (.layout p) := fun _ => hs.layoutOf_map hp
  rw [setEnclosing_run]
  split
  · refine ⟨_, guides_rehung hs hreg (hs.layoutOf ha) rfl rfl (Spares.setEnclosingLink ((Spares.refl _).rehung
      (hgrows _ (hs.layoutOf ha)) fun p hq => hgrows _ (houter p hq)) a parent fun b hb => live_of_mem_roots ?_).leads⟩
    exact hswept.held ▸ hp b hb
  · exact ⟨_, guides_fades hs hreg (.refl _ s)⟩

theorem guides_relinkTo (hs : s.WellFormed) (hreg : s.Registered) (hk : s.Allocated (.layout k))
    {parent : Option LayoutId} (hp : ∀ p, parent = some p → s.Allocated (.layout p)) :
    ∃ stays, s.Guides ((relinkTo k parent).run s).2 n l stays := by
  have hgrows := ((Spares.refl s).invalidateAll k).leads.grows
  rw [relinkTo_run]
  exact ⟨_, guides_rehung hs hreg hk rfl rfl
    ((Spares.refl _).rehung (hgrows _ hk) fun p hq => hgrows _ (hp p hq)).leads⟩

/-- **Every operation guides**, as long as layouts are nested without a circle. -/
theorem guides_perform (hs : s.Sound) (hreg : s.Registered) (hacyclic : s.Acyclic) {op : Operation}
    (h : ∀ r ∈ op.operands, r ∈ s.roots) (hloop : (op.perform s).Loopless) :
    ∃ stays, s.Guides (op.perform s) n l stays := by
  have hwf := hs.wellFormed
  by_cases hlooks : op.LooksUp
  · exact ⟨_, guides_adds (adds_perform hs h hlooks)⟩
  by_cases hlinks : op.Relinks
  · cases op with
    | initializeEnclosing k parent =>
        obtain ⟨hl, hp⟩ := held_optional h
        exact guides_initializeEnclosing hwf hreg (hwf.roots _ hl) fun p hin => hwf.roots _ (hp p hin)
    | relink k parent =>
        obtain ⟨hl, hp⟩ := held_optional h
        exact guides_relinkTo hwf hreg (hwf.roots _ hl) fun p hin => hwf.roots _ (hp p hin)
    | newScope k enclosing depth => exact guides_newScope hs hreg h
    | setEnclosing a parent =>
        obtain ⟨ha, hp⟩ := held_optional h
        exact guides_setEnclosing hwf hreg ha hp
    | attach a b =>
        simp only [Operation.operands, List.forall_mem_cons] at h
        exact guides_attach hs hreg h.1 h.2.1 hloop
    | detachEnclosing a => exact guides_detachEnclosing hs hreg hacyclic (h _ List.mem_cons_self)
    | _ => exact hlinks.elim
  · exact ⟨_, guides_fades hwf hreg (fades_perform hs h hlinks hlooks fun _ hk _ => hk)⟩

theorem Elsewhere.guides (h : s.Elsewhere s₁) (hs : s.WellFormed) (hreg : s.Registered) :
    s.Guides s₁ n l fun j => n ∈ (s₁.layout j).recorded := by
  exact guides_fades hs hreg (fades_of_eq _ (fun k => by rw [h.layout]) (fun k => by rw [h.layout])
    (fun k => by rw [h.layout]) (fun k => by rw [h.layout]) h.lookups)

end Store

end ScopeCall
