import ScopeCall.Proofs.Tidying

/-!
# `ScopeCall.Proofs.Fading` — what a sweep takes, it takes further down as well

Most operations change no link between layouts, and make no result. At most they sweep: a name that was on
record at a layout is forgotten there, and in all layouts nested in it that are alive, as far down as it is on
record. So a name that has stayed on record at the bottom of a chain of layouts has stayed all the way up.

## Contents
- **Fading.** `Store.Fades`: links as before, and records forgotten downwards.
- **Sweeps.** `fades_sweep`.
- **Operations.** One lemma per operation that changes no link and makes no result.
- **Lookups.** `Store.Adds`: links as before, and more on record.
- **Steps.** `fades_perform` and `adds_perform`.
-/

namespace ScopeCall

namespace Store

variable {s s₁ s₂ : Store} {alive : LayoutId → Prop} {l : LayoutId} {a : ActivationId}

/-! ## Fading -/

/-- Links are as they were. Of what was on record, some has been forgotten: the results for it, and the same
    names in the children that count as alive. -/
structure Fades (alive : LayoutId → Prop) (s s' : Store) : Prop where
  enclosing : ∀ k, (s'.layout k).enclosing = (s.layout k).enclosing
  children : ∀ k, (s'.layout k).children = (s.layout k).children
  recorded : ∀ k n, n ∈ (s'.layout k).recorded → n ∈ (s.layout k).recorded
  passes : ∀ k n, n ∈ (s.layout k).recorded → n ∉ (s'.layout k).recorded →
    ∀ c ∈ (s.layout k).children, alive c → n ∉ (s'.layout c).recorded
  /-- A result that may be trusted is still remembered, and its name is still on record. -/
  kept : ∀ k n r, (s.layout k).memo? n = some r → s'.lookupValid r.guard = true →
    (s'.layout k).memo? n = some r ∧ (n ∈ (s.layout k).recorded → n ∈ (s'.layout k).recorded)
  fallen : ∀ g, s'.lookupValid g = true → s.lookupValid g = true

/-- Links, records and results have stayed. -/
theorem fades_of_eq (alive : LayoutId → Prop)
    (henclosing : ∀ k, (s₁.layout k).enclosing = (s.layout k).enclosing)
    (hchildren : ∀ k, (s₁.layout k).children = (s.layout k).children)
    (hrecorded : ∀ k, (s₁.layout k).recorded = (s.layout k).recorded)
    (hmemos : ∀ k, (s₁.layout k).memos = (s.layout k).memos) (hlookups : s₁.lookups = s.lookups) :
    s.Fades alive s₁ := by
  refine ⟨henclosing, hchildren, fun k n hn => hrecorded k ▸ hn,
    fun k n hn hgone => absurd (hrecorded k ▸ hn) hgone, fun k n r hr _ => ⟨?_, fun hn => hrecorded k ▸ hn⟩,
    fun g hg => ?_⟩
  · rwa [Layout.memo?, hmemos, ← Layout.memo?]
  · rwa [lookupValid, lookup, hlookups, ← lookup, ← lookupValid] at hg

theorem Still.fades (h : s.Still s₁) (alive : LayoutId → Prop) : s.Fades alive s₁ :=
  fades_of_eq alive (h.part Layout.enclosing fun _ => rfl) (h.part Layout.children fun _ => rfl)
    (h.part Layout.recorded fun _ => rfl) (h.part Layout.memos fun _ => rfl) h.lookups

theorem Fades.refl (alive : LayoutId → Prop) (s : Store) : s.Fades alive s := (Still.refl s).fades alive

theorem Fades.trans (h : s.Fades alive s₁) (h' : s₁.Fades alive s₂) : s.Fades alive s₂ where
  enclosing k := (h'.enclosing k).trans (h.enclosing k)
  children k := (h'.children k).trans (h.children k)
  recorded k n hn := h.recorded k n (h'.recorded k n hn)
  passes k n hn hgone c hc hlive := by
    by_cases hmid : n ∈ (s₁.layout k).recorded
    · exact h'.passes k n hmid hgone c (h.children k ▸ hc) hlive
    · exact fun hc' => h.passes k n hn hmid c hc hlive (h'.recorded c n hc')
  kept k n r hr hv := by
    obtain ⟨hr₁, hn₁⟩ := h.kept k n r hr (h'.fallen _ hv)
    obtain ⟨hr₂, hn₂⟩ := h'.kept k n r hr₁ hv
    exact ⟨hr₂, fun hn => hn₂ (hn₁ hn)⟩
  fallen g hg := h.fallen g (h'.fallen g hg)

/-! ## Sweeps -/

section Sweep

variable {visit : Layout → Visit} {N : Name → Prop}

/-- **A sweep takes a name from a layout, and from the children that are alive at its end.** -/
theorem fades_sweep (hv : Forgetting visit N) (hs : s.WellFormed) (hl : s.Allocated (.layout l))
    (hlasting : (sweep visit s.sweepBound [l] s).Lasting alive) :
    s.Fades alive (sweep visit s.sweepBound [l] s) := by
  obtain ⟨R, hsweeps, -⟩ := sweep_from hv hs hl
  have hsw := swept_sweep hv s.sweepBound [l] s
  have hleads := (spares_sweep hv s.sweepBound [l] s).leads
  generalize sweep visit s.sweepBound [l] s = s' at *
  refine ⟨fun k => by rw [(hsw.layout k).eq], fun k => by rw [(hsw.layout k).eq],
    fun k n => (hsw.layout k).recorded n, fun k n hn hgone c hc hlive => ?_, fun k n r hr hvalid => ?_,
    hsw.fallen⟩
  · have hR : R k := by
      by_contra hnot
      exact hgone (hsweeps.others k hnot ▸ hn)
    rw [hsweeps.visited k hR] at hgone
    have hN : N n := by
      by_contra hnot
      exact hgone (hv.keeps _ n hnot hn)
    have hgrown : s'.Allocated (.layout c) := hleads.grows _ (hs.children hc)
    rw [hsweeps.visited c (hsweeps.closed k hR (hv.descends _ n hN hn) c hc (hlasting c hlive hgrown))]
    exact hv.not_recorded _ hN
  · by_cases hR : R k
    · rw [hsweeps.visited k hR]
      have hkept : (visit (s.layout k)).layout.memo? n = some r := by
        refine (hv.memo _ n r hr).resolve_right fun hdropped => ?_
        rw [hsweeps.dropped k hR _ hdropped] at hvalid
        exact absurd hvalid Bool.false_ne_true
      refine ⟨hkept, fun hn => ?_⟩
      by_cases hN : N n
      · rw [hv.gone _ n hN hn] at hkept
        exact absurd hkept (by simp)
      · exact hv.keeps _ n hN hn
    · rw [hsweeps.others k hR]
      exact ⟨hr, id⟩

theorem fades_invalidateNames (hs : s.WellFormed) (hl : s.Allocated (.layout l)) (names : List Name)
    (hlasting : (s.invalidateNames l names).Lasting alive) : s.Fades alive (s.invalidateNames l names) :=
  fades_sweep (forgetting_forgetNames names) hs hl hlasting

theorem fades_invalidateAll (hs : s.WellFormed) (hl : s.Allocated (.layout l))
    (hlasting : (s.invalidateAll l).Lasting alive) : s.Fades alive (s.invalidateAll l) :=
  fades_sweep forgetting_forgetAll hs hl hlasting

end Sweep

/-! ## Operations -/

theorem fades_findOrAddSlot (hs : s.WellFormed) (hl : s.Allocated (.layout l)) (n : Name)
    (hlasting : ((findOrAddSlot l n).run s).2.Lasting alive) :
    s.Fades alive ((findOrAddSlot l n).run s).2 := by
  rw [findOrAddSlot_run] at hlasting ⊢
  split
  · exact .refl alive s
  · rename_i hnone
    simp only [hnone] at hlasting
    obtain ⟨info, -, hw⟩ := widens_widened hl n
    exact ((still_widened s l n).fades alive).trans
      (fades_invalidateNames (hw.leads.wellFormed hs) (hw.leads.grows _ hl) [n] hlasting)

theorem fades_write (hs : s.Sound) (ha : Ref.activation a ∈ s.roots) (slot : Nat) {v : Value}
    (hv : ∀ r ∈ v.refs, r ∈ s.roots) (nonLocal : Bool)
    (hlasting : ((write a slot v nonLocal).run.run s).2.Lasting alive) :
    s.Fades alive ((write a slot v nonLocal).run.run s).2 := by
  rw [write_run] at hlasting ⊢
  cases hslot : s.slot? (s.layoutOf a) slot with
  | none => exact .refl alive s
  | some info =>
      simp only [hslot] at hlasting ⊢
      have hstill := ((still_noted s a v).trans (still_store (s.noted a v) a slot v)).fades alive
      have hnoted := (aside_noted s a v).1
      have hn := hnoted.advances hs
      have hi : slot < ((s.noted a v).layout ((s.noted a v).layoutOf a)).slots.size := by
        rw [layoutOf, hnoted.activation, ← layoutOf, hnoted.layout]
        exact (Array.getElem?_eq_some_iff.1 hslot).1
      have hstore := advances_store (hn.sound hs) (hn.mem_roots ha) hi fun r hr => hn.mem_roots (hv r hr)
      have hs₁ := (hstore.sound (hn.sound hs)).wellFormed
      have hl := hstore.leads.grows _ (hn.leads.grows _ (hs.wellFormed.layoutOf ha))
      generalize (store a slot v).run (s.noted a v) = result at *
      rcases result with ⟨_ | _, s₁⟩
      · exact hstill.trans ((still_noteWrite _ info nonLocal _).fades alive)
      · dsimp only [if_pos] at *
        exact (hstill.trans (fades_invalidateNames hs₁ hl [info.name]
          (hlasting.before ((Leads.refl _).aside (aside_noteWrite _ _ _ _).1)))).trans
          ((still_noteWrite _ info nonLocal _).fades alive)

theorem fades_bindName (hs : s.Sound) (ha : Ref.activation a ∈ s.roots) (n : Name) {v : Value}
    (hv : ∀ r ∈ v.refs, r ∈ s.roots) (nonLocal : Bool)
    (hlasting : ((bindName a n v nonLocal).run.run s).2.Lasting alive) :
    s.Fades alive ((bindName a n v nonLocal).run.run s).2 := by
  rw [bindName_run] at hlasting ⊢
  have hl := hs.wellFormed.layoutOf ha
  have hadd := advances_findOrAddSlot hs hl n
  have hwrite := advances_write (hadd.sound hs) (hadd.mem_roots ha)
    ((findOrAddSlot (s.layoutOf a) n).run s).1 (fun r hr => hadd.mem_roots (hv r hr)) nonLocal
  exact (fades_findOrAddSlot hs.wellFormed hl n (hlasting.before hwrite.leads)).trans
    (fades_write (hadd.sound hs) (hadd.mem_roots ha) _ (fun r hr => hadd.mem_roots (hv r hr)) nonLocal hlasting)

theorem fades_remove (hs : s.Sound) (ha : Ref.activation a ∈ s.roots) (n : Name)
    (hlasting : ((remove a n).run s).2.Lasting alive) : s.Fades alive ((remove a n).run s).2 := by
  rw [remove_run] at hlasting ⊢
  cases hslotOf : s.slotOf? a n with
  | none => exact .refl alive s
  | some slot =>
      cases hslot : s.slot? (s.layoutOf a) slot with
      | none =>
          simp only [hslot]
          exact .refl alive s
      | some info =>
          simp only [hslotOf, hslot] at hlasting ⊢
          have hstill := still_empty s a slot
          have hempty := advances_empty hs ha (Array.getElem?_eq_some_iff.1 hslot).1
          have hl := hempty.leads.grows _ (hs.wellFormed.layoutOf ha)
          have hs₁ := (hempty.sound hs).wellFormed
          generalize ((empty a slot).run s).2 = s₁ at *
          have haside := (aside_noteWrite s₁ info false (s₁.activation a).irregular).1
          exact ((hstill.trans (still_noteWrite s₁ info false _)).fades alive).trans
            (fades_invalidateNames (((Leads.refl s₁).aside haside).wellFormed hs₁)
              ((haside.allocated _).2 hl) [n] hlasting)

theorem fades_writeInContext (hs : s.Sound) (ha : Ref.activation a ∈ s.roots) (slot : Nat) {v : Value}
    (hv : ∀ r ∈ v.refs, r ∈ s.roots)
    (hlasting : ((writeInContext a slot v).run.run s).2.Lasting alive) :
    s.Fades alive ((writeInContext a slot v).run.run s).2 := by
  rw [writeInContext_run] at hlasting ⊢
  split
  · exact .refl alive s
  · rename_i info hslot
    simp only [hslot] at hlasting
    by_cases hfirst : s.contexts.current = primordial
    · rw [if_pos hfirst] at hlasting ⊢
      exact fades_write hs ha slot hv false hlasting
    · rw [if_neg hfirst]
      refine Still.fades ?_ alive
      split
      · refine Still.trans ?_ (still_setContent _ a slot _)
        split
        · exact .refl s
        · exact still_giveUpSharing s _ slot info
      · exact .refl s

theorem fades_fanOutAll (s : Store) (a : ActivationId) (contexts : List Nat) (replicate : Bool) :
    s.Fades alive ((fanOutAll a contexts replicate).run.run s).2 :=
  fanOutAll_run (P := s.Fades alive) s a contexts replicate
    (fun slot s₁ h => h.trans ((still_fanOutSlot s₁ a slot contexts replicate).fades alive)) (.refl alive s)

section Entering

variable {enclosing : Option ActivationId} {depth : Nat}

theorem fades_claimed (alive : LayoutId → Prop) : s.Fades alive (s.claimed l enclosing depth) :=
  fades_of_eq alive (claim_part (s := s.joined l enclosing depth) Layout.enclosing (fun _ => rfl) l)
    (claim_part (s := s.joined l enclosing depth) Layout.children (fun _ => rfl) l)
    (claim_part (s := s.joined l enclosing depth) Layout.recorded (fun _ => rfl) l)
    (claim_part (s := s.joined l enclosing depth) Layout.memos (fun _ => rfl) l) rfl

/-- Entering a layout links nothing, and forgets what went through a layout that is claimed anew. -/
theorem fades_enter (hs : s.Sound) (hl : Ref.layout l ∈ s.roots)
    (he : ∀ b, enclosing = some b → Ref.activation b ∈ s.roots)
    (hlasting : ((enter l enclosing depth).run.run s).2.Lasting alive) :
    s.Fades alive ((enter l enclosing depth).run.run s).2 := by
  have hlive := live_of_mem_roots hl
  have hclaim : s.Fades alive (s.claimed l enclosing depth) := fades_claimed alive
  rw [enter_run] at hlasting ⊢
  split
  · rename_i hk
    rw [if_pos hk] at hlasting
    split
    · exact fades_of_eq alive (fun _ => rfl) (fun _ => rfl) (fun _ => rfl) (fun _ => rfl) rfl
    · rename_i hfree
      rw [if_neg hfree] at hlasting
      dsimp only at hlasting ⊢
      split
      · rename_i hfirst
        rw [if_pos hfirst] at hlasting
        have hreclaim := (advances_reclaimed depth hs hlive (fun b hb => live_of_mem_roots (he b hb))
          fun b => hs.layoutOf_ne hk hfree).1
        exact (hclaim.trans ((still_emptied _ l 0 _).fades alive)).trans (fades_invalidateAll
          (hreclaim.sound hs).wellFormed (hreclaim.leads.grows _ (hlive.allocated hs.wellFormed)) hlasting)
      · exact hclaim
  · exact fades_of_eq alive (fun _ => rfl) (fun _ => rfl) (fun _ => rfl) (fun _ => rfl) rfl

end Entering

/-- A new layout has no links, and nothing is on record there. -/
theorem fades_newLayout (s : Store) (label : String) (kind : LayoutKind) (policy : BindingPolicy) :
    s.Fades alive ((newLayout label kind policy).run s).2 := by
  have hguards : s.Still ((s.addGuard (label ++ " has no active bindings")).addGuard
      (label ++ " enclosing")) := still_of_eq rfl rfl rfl rfl
  exact (hguards.fades alive).trans (fades_of_eq alive (addLayout_part Layout.enclosing rfl)
    (addLayout_part Layout.children rfl) (addLayout_part Layout.recorded rfl)
    (addLayout_part Layout.memos rfl) rfl)

/-! ## Lookups -/

/-- Links are as they were, and more is on record. A result that has been replaced may not be trusted. -/
structure Adds (s s' : Store) : Prop where
  enclosing : ∀ k, (s'.layout k).enclosing = (s.layout k).enclosing
  children : ∀ k, (s'.layout k).children = (s.layout k).children
  recorded : ∀ k n, n ∈ (s.layout k).recorded → n ∈ (s'.layout k).recorded
  kept : ∀ k n r, (s.layout k).memo? n = some r → s'.lookupValid r.guard = true →
    (s'.layout k).memo? n = some r
  fallen : ∀ g, g.index < s.lookups.size → s'.lookupValid g = true → s.lookupValid g = true

theorem Adds.refl (s : Store) : s.Adds s :=
  ⟨fun _ => rfl, fun _ => rfl, fun _ _ => id, fun _ _ _ hr _ => hr, fun _ _ => id⟩

theorem Learns.adds {n : Name} {r : LookupResult} (h : s.Learns s₁ l n r) : s.Adds s₁ := by
  refine ⟨h.scopes.enclosing, h.children, h.recorded, fun k m q hq hv => ?_, h.valid⟩
  rw [h.memo, if_neg]
  · exact hq
  · rintro ⟨rfl, rfl⟩
    rw [h.replaced q hq] at hv
    exact absurd hv Bool.false_ne_true

/-- Only layouts and lookups matter. -/
theorem Adds.same (h : s.Adds s₁) (hlayouts : s₂.layouts = s₁.layouts) (hlookups : s₂.lookups = s₁.lookups) :
    s.Adds s₂ := by
  have hlayout : s₂.layout = s₁.layout := by
    unfold layout
    rw [hlayouts]
  have hvalid : s₂.lookupValid = s₁.lookupValid := by
    unfold lookupValid lookup
    rw [hlookups]
  obtain ⟨henclosing, hchildren, hrecorded, hkept, hfallen⟩ := h
  rw [← hlayout] at henclosing hchildren hrecorded hkept
  rw [← hvalid] at hkept hfallen
  exact ⟨henclosing, hchildren, hrecorded, hkept, hfallen⟩

/-! ## Steps -/

namespace Operation

/-- Operations that may link layouts anew. -/
def Relinks : Operation → Prop
  | .initializeEnclosing .. | .relink .. | .newScope .. | .setEnclosing .. | .attach .. | .detachEnclosing .. =>
    True
  | _ => False

end Operation

/-- **Every other operation only takes away.** -/
theorem fades_perform (hs : s.Sound) {op : Operation} (h : ∀ r ∈ op.operands, r ∈ s.roots)
    (hlinks : ¬ op.Relinks) (hlooks : ¬ op.LooksUp) (hlasting : (op.perform s).Lasting alive) :
    s.Fades alive (op.perform s) := by
  have hwf := hs.wellFormed
  cases op with
  | newLayout label kind policy =>
      have hheld : ((newLayout label kind policy).run s).2.Still
          ((Operation.newLayout label kind policy).perform s) := still_of_eq rfl rfl rfl rfl
      exact (fades_newLayout s label kind policy).trans (hheld.fades alive)
  | initializeEnclosing l parent => exact absurd trivial hlinks
  | relink l parent => exact absurd trivial hlinks
  | newScope l enclosing depth => exact absurd trivial hlinks
  | setEnclosing a parent => exact absurd trivial hlinks
  | attach a inserted => exact absurd trivial hlinks
  | detachEnclosing a => exact absurd trivial hlinks
  | resolve a n => exact absurd trivial hlooks
  | cachedRead c a => exact absurd trivial hlooks
  | findOrAddSlot l n => exact fades_findOrAddSlot hwf (hwf.roots _ (h _ List.mem_cons_self)) n hlasting
  | invalidateNames l names =>
      exact fades_invalidateNames hwf (hwf.roots _ (h _ List.mem_cons_self)) names hlasting
  | invalidateAll l => exact fades_invalidateAll hwf (hwf.roots _ (h _ List.mem_cons_self)) hlasting
  | define a n v | assignNonLocal a n v =>
      simp only [Operation.operands, List.forall_mem_cons] at h
      exact fades_bindName hs h.1 n h.2 _ hlasting
  | setActiveBinding a n g =>
      exact fades_bindName hs (h _ List.mem_cons_self) n (v := .active g) (by simp [Value.refs]) false hlasting
  | write a slot v nonLocal =>
      simp only [Operation.operands, List.forall_mem_cons] at h
      exact fades_write hs h.1 slot h.2 nonLocal hlasting
  | remove a n => exact fades_remove hs (h _ List.mem_cons_self) n hlasting
  | writeInContext a slot v =>
      simp only [Operation.operands, List.forall_mem_cons] at h
      exact fades_writeInContext hs h.1 slot h.2 hlasting
  | fanOutSlot a slot contexts replicate =>
      exact (still_fanOutSlot s a slot contexts replicate).fades alive
  | fanOutAll a contexts replicate => exact fades_fanOutAll s a contexts replicate
  | _ =>
      exact fades_of_eq alive (fun _ => rfl) (fun _ => rfl) (fun _ => rfl) (fun _ => rfl) rfl

theorem adds_perform (hs : s.Sound) {op : Operation} (h : ∀ r ∈ op.operands, r ∈ s.roots)
    (hlooks : op.LooksUp) : s.Adds (op.perform s) := by
  obtain ⟨s₁, hfound, hlayouts, -, hlookups⟩ := learns_perform hs h hlooks
  refine Adds.same ?_ hlayouts hlookups
  rcases hfound with rfl | ⟨l, n, r, hlearns⟩
  · exact .refl s₁
  · exact hlearns.adds

end Store

end ScopeCall
