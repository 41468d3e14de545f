import ScopeCall.Proofs.Agreeing

/-!
# `ScopeCall.Proofs.Converting` — slots that hold a value per context

A slot that is converted is not tracked any more. Results that end at it become invalid by themselves; a
walk comes to the activation now, and what it finds there depends on the context. But lookups that went
past the slot while it was empty are not swept away when it is converted, nor when it is filled later. As
long as no such slot is converted, what is remembered stays reliable in every context.

## Contents
- **Slots given up.** `Store.Passed`, and `remembers_giveUpSharing`.
- **Operations.** What each does to what is remembered.
- **Runs.** `ConvertingStep`, `converting_reliable`, and in `conversion_leaves_stale` a lookup that is left
  behind.
-/

namespace ScopeCall

namespace Store

variable {s s₁ : Store} {alive : LayoutId → Prop} {l : LayoutId} {a : ActivationId} {slot : Nat}

/-! ## Slots given up -/

/-- A lookup has gone past a slot that is tracked, and empty. -/
def Passed (s : Store) (l : LayoutId) (i : Nat) : Prop :=
  ∃ n t, (s.layout l).slotIndex? n = some i ∧ n ∈ (s.layout l).recorded
    ∧ s.token l i = some t ∧ (s.stable t).value = none

/-- Giving a slot up is one change of tokens between two of guards. -/
theorem retracks_giveUpSharing (hs : s.WellFormed) {info : SlotInfo} {i : Nat}
    (hslot : s.slot? l i = some info) :
    (s.invalidate info.notModifiedNonLocally).Retracks
      ((s.invalidate info.notModifiedNonLocally).dropStable l i) l i none none :=
  retracks_dropStable (((Leads.refl s).aside (s.aside_invalidate _)).wellFormed hs) hslot

/-- No lookup is made to have gone past a slot by giving up another. -/
theorem passed_of_giveUpSharing (hs : s.WellFormed) {info : SlotInfo} {i j : Nat}
    (hslot : s.slot? l i = some info) (h : (s.giveUpSharing l i info).Passed l j) : s.Passed l j := by
  have hre := retracks_giveUpSharing hs hslot
  obtain ⟨n, t, hn, hrec, ht, hvalue⟩ := h
  have ht : ((s.invalidate info.notModifiedNonLocally).dropStable l i).token l j = some t := ht
  rw [hre.token] at ht
  split at ht
  · simp at ht
  · have hids : ((s.giveUpSharing l i info).layout l).identifiers = (s.layout l).identifiers :=
      identifiers_of_slot (hre.size l) (hre.slot l)
    have hrecorded : ((s.giveUpSharing l i info).layout l).recorded = (s.layout l).recorded :=
      (congrArg Layout.recorded (hre.layout l) : _)
    rw [Layout.slotIndex?_eq, hids, ← Layout.slotIndex?_eq] at hn
    rw [hrecorded] at hrec
    exact ⟨n, t, hn, hrec, ht, (hre.value t (hs.token ht)).symm.trans hvalue⟩

/-- **Giving a slot up leaves nothing pending** if no lookup has gone past it. -/
theorem remembers_giveUpSharing (h : s.Remembers alive fun _ _ => False) (hs : s.WellFormed)
    {info : SlotInfo} {i : Nat} (hslot : s.slot? l i = some info) (hpassed : ¬ s.Passed l i) :
    (s.giveUpSharing l i info).Remembers alive fun _ _ => False := by
  have hre := retracks_giveUpSharing hs hslot
  have haside := s.aside_invalidate info.notModifiedNonLocally
  have hs₁ := ((Leads.refl s).aside haside).wellFormed hs
  have hdropped := (h.aside hs haside rfl).retracks hs₁ hre (fun _ _ => id) (fun _ => rfl)
    fun t ht hvalue n hn hi => hpassed ⟨n, t, hi, hn, ht, hvalue⟩
  unfold giveUpSharing
  exact hdropped.aside (hre.leads.wellFormed hs₁) (aside_invalidate _ _) rfl

/-! ## Operations -/

theorem remembers_writeInContext (h : s.Remembers alive fun _ _ => False) (hs : s.Sound)
    (ha : Ref.activation a ∈ s.roots) {v : Value} (hv : ∀ r ∈ v.refs, r ∈ s.roots)
    (hpassed : s.contexts.current = primordial ∨ ¬ s.Passed (s.layoutOf a) slot)
    (hlasting : ((writeInContext a slot v).run.run s).2.Lasting alive) :
    ((writeInContext a slot v).run.run s).2.Remembers alive fun _ _ => False := by
  rw [writeInContext_run] at hlasting ⊢
  cases hslot : s.slot? (s.layoutOf a) slot with
  | none => exact h
  | some info =>
      simp only [hslot] at hlasting ⊢
      by_cases hc : s.contexts.current = primordial
      · rw [if_pos hc] at hlasting ⊢
        exact remembers_write h hs ha slot hv false hlasting
      · rw [if_neg hc]
        split
        · split
          · exact h.setContent hs.wellFormed a slot _
          · have hgive := (advances_giveUpSharing hs hslot).1
            exact (remembers_giveUpSharing h hs.wellFormed hslot (hpassed.resolve_left hc)).setContent
              (hgive.leads.wellFormed hs.wellFormed) a slot _
        · exact h

/-- A slot that is tracked and empty is left alone by replication: there is nothing to copy. -/
theorem not_passed_of_replicated (hs : s.Sound) (ha : s.Live (.activation a)) {info : SlotInfo}
    (hslot : s.slot? (s.layoutOf a) slot = some info)
    (hconverts : ¬ (info.stable.isSome && !s.copiesSlot a slot info) = true) :
    ¬ s.Passed (s.layoutOf a) slot := by
  rintro ⟨n, t, -, -, ht, hvalue⟩
  apply hconverts
  have hagree := hs.bindings.agree a slot t ha ht not_false
  have hstable : info.stable = some t := by
    rw [token, hslot] at ht
    exact ht
  rw [hvalue] at hagree
  unfold copiesSlot
  simp [hagree, hstable, hvalue, SlotContent.ofOption, SlotContent.readIn]

/-- Storing entries, with lists made for them, changes nothing that layouts say. -/
theorem remembers_setContent_heap (h : s.Remembers alive fun _ _ => False) (hs : s.WellFormed)
    (heap : Heap) (a : ActivationId) (i : Nat) (c : SlotContent) :
    (Store.setContent { s with heap } a i c).Remembers alive fun _ _ => False := by
  refine h.quiet_same hs ⟨fun b => Leads.allocated_modifyActivation { s with heap } a _ _, fun _ hk => hk,
    fun b => layoutOf_setContent { s with heap } a b i c, fun b => ?_, fun _ => rfl, rfl, rfl⟩ rfl rfl
  exact s.activation_modifyActivation_congr Activation.enclosing a b _ rfl

theorem remembers_fanOutSlot (h : s.Remembers alive fun _ _ => False) (hs : s.Sound)
    (ha : Ref.activation a ∈ s.roots) (contexts : List Nat) {replicate : Bool}
    (hpassed : replicate = true ∨ ¬ s.Passed (s.layoutOf a) slot) :
    ((fanOutSlot a slot contexts replicate).run.run s).2.Remembers alive fun _ _ => False := by
  rw [fanOutSlot_run]
  split
  · cases hslot : s.slot? (s.layoutOf a) slot with
    | none => exact h
    | some info =>
        dsimp only
        split
        · exact h
        · rename_i hconverts
          have hnot : ¬ s.Passed (s.layoutOf a) slot := by
            rcases hpassed with hreplicate | hnot
            · refine not_passed_of_replicated hs (live_of_mem_roots ha) hslot fun hleft => hconverts ?_
              rw [hleft, hreplicate]
              simp
            · exact hnot
          have hgive := (advances_giveUpSharing hs hslot).1
          exact remembers_setContent_heap (remembers_giveUpSharing h hs.wellFormed hslot hnot)
            (hgive.leads.wellFormed hs.wellFormed) _ a slot _
  · exact h

theorem layoutOf_fanOutSlot (hs : s.Sound) (contexts : List Nat) (replicate : Bool)
    (b : ActivationId) :
    ((fanOutSlot a slot contexts replicate).run.run s).2.layoutOf b = s.layoutOf b := by
  rw [fanOutSlot_run]
  split
  · cases hslot : s.slot? (s.layoutOf a) slot with
    | none => rfl
    | some info =>
        dsimp only
        split
        · rfl
        · obtain ⟨-, -, -, hactivation⟩ := advances_giveUpSharing hs hslot
          rw [layoutOf_setContent]
          exact congrArg Activation.layout (hactivation b)
  · rfl

/-- What another slot has been passed by is as before. -/
theorem passed_of_fanOutSlot (hs : s.WellFormed) {contexts : List Nat} {replicate : Bool} {j : Nat}
    (h : ((fanOutSlot a slot contexts replicate).run.run s).2.Passed (s.layoutOf a) j) :
    s.Passed (s.layoutOf a) j := by
  rw [fanOutSlot_run] at h
  split at h
  · cases hslot : s.slot? (s.layoutOf a) slot with
    | none =>
        rw [hslot] at h
        exact h
    | some info =>
        rw [hslot] at h
        dsimp only at h
        split at h
        · exact h
        · exact passed_of_giveUpSharing hs hslot h
  · exact h

theorem remembers_fanOutAll (h : s.Remembers alive fun _ _ => False) (hs : s.Sound)
    (ha : Ref.activation a ∈ s.roots) (contexts : List Nat) {replicate : Bool}
    (hpassed : replicate = true ∨ ∀ slot, ¬ s.Passed (s.layoutOf a) slot) :
    ((fanOutAll a contexts replicate).run.run s).2.Remembers alive fun _ _ => False := by
  have hall := fanOutAll_run (s := s) (P := fun s₁ => s₁.Sound ∧ Ref.activation a ∈ s₁.roots
    ∧ s₁.Remembers alive (fun _ _ => False) ∧ s₁.layoutOf a = s.layoutOf a
    ∧ (replicate = true ∨ ∀ slot, ¬ s₁.Passed (s.layoutOf a) slot)) a contexts replicate ?_
    ⟨hs, ha, h, rfl, hpassed⟩
  · exact hall.2.2.1
  · rintro slot s₁ ⟨hs₁, ha₁, h₁, hlayout, hpassed₁⟩
    have hadv := advances_fanOutSlot hs₁ ha₁ slot contexts replicate
    refine ⟨hadv.sound hs₁, hadv.mem_roots ha₁, remembers_fanOutSlot h₁ hs₁ ha₁ contexts ?_, ?_, ?_⟩
    · rw [hlayout]
      exact hpassed₁.imp_right fun hnot => hnot slot
    · exact (layoutOf_fanOutSlot hs₁ contexts replicate a).trans hlayout
    · refine hpassed₁.imp_right fun hnot slot' hpassed' => hnot slot' ?_
      rw [← hlayout] at hpassed' ⊢
      exact passed_of_fanOutSlot hs₁.wellFormed hpassed'

theorem remembers_cleanFanOut (h : s.Remembers alive fun _ _ => False) (hs : s.WellFormed)
    (a : ActivationId) (contexts : Option (List Nat)) :
    (s.cleanFanOut a contexts).Remembers alive fun _ _ => False := by
  unfold cleanFanOut
  refine h.quiet_same hs ⟨fun b => Leads.allocated_modifyActivation s a _ _, fun _ hk => hk,
    fun b => ?_, fun b => ?_, fun _ => rfl, rfl, rfl⟩ rfl rfl
  · exact s.activation_modifyActivation_congr Activation.layout a b _ rfl
  · exact s.activation_modifyActivation_congr Activation.enclosing a b _ rfl

/-! ## Runs -/

/-- Operations that convert no slot which a lookup has gone past while it was empty. -/
def Spared (s : Store) : Operation → Prop
  | .writeInContext a slot _         =>
    s.contexts.current = primordial ∨ ¬ s.Passed (s.layoutOf a) slot
  | .fanOutSlot a slot _ replicate   => replicate = true ∨ ¬ s.Passed (s.layoutOf a) slot
  | .fanOutAll a _ replicate         => replicate = true ∨ ∀ slot, ¬ s.Passed (s.layoutOf a) slot
  | .cleanFanOut ..                  => True
  | _                                => False

/-- One step of a program that also converts slots. -/
inductive ConvertingStep (s : Store) : Store → Prop where
  | moving {s' : Store} (h : s.MovingStep s') : ConvertingStep s s'
  | convert (op : Operation) (hop : s.Spared op) (h : ∀ r ∈ op.operands, r ∈ s.roots)
      (houtlive : (op.perform s).ParentsOutlive) : ConvertingStep s (op.perform s)

/-- Any number of such steps. -/
abbrev ConvertingRun : Store → Store → Prop := Relation.ReflTransGen ConvertingStep

/-- A store that a program can come to that keeps to such steps. -/
def Converting (s : Store) : Prop := ∃ names, ConvertingRun (.new names) s

theorem ConvertingStep.step (h : s.ConvertingStep s₁) : s.Step s₁ := by
  cases h with
  | moving h => exact h.step
  | convert op _ h _ => exact .operate op h

/-- Writing a slot changes no link. -/
theorem enclosing_write (hs : s.Sound) {v : Value} (hv : ∀ r ∈ v.refs, r ∈ s.roots) (nonLocal : Bool)
    (k : LayoutId) :
    (((write a slot v nonLocal).run.run s).2.layout k).enclosing = (s.layout k).enclosing := by
  have hnoted := (aside_noted s a v).1
  have hs₁ := ((hnoted.advances hs).sound hs).wellFormed
  have hstored : (((store a slot v).run (s.noted a v)).2.layout k).enclosing
      = (s.layout k).enclosing := by
    rw [store_run]
    split
    · exact congrArg Layout.enclosing (hnoted.layout k)
    · rcases recordWrite_cases hs₁ ((s.noted a v).layoutOf a) slot (v := some v) fun r hr =>
          live_of_mem_roots ((hnoted.advances hs).mem_roots (hv r hr)) with
        ⟨hsame, -, -⟩ | ⟨_, _, _, _, hre, -⟩
      · rw [hsame]
        exact congrArg Layout.enclosing (hnoted.layout k)
      · refine Eq.trans (b := ((s.noted a v).layout k).enclosing) ?_ ?_
        · exact (congrArg Layout.enclosing (hre.layout k) : _)
        · exact congrArg Layout.enclosing (hnoted.layout k)
  rw [write_run]
  cases s.slot? (s.layoutOf a) slot with
  | none => rfl
  | some info =>
      dsimp only
      generalize (store a slot v).run (s.noted a v) = result at hstored ⊢
      rcases result with ⟨filled, s₁⟩
      dsimp only at hstored ⊢
      rw [(aside_noteWrite _ _ _ _).1.layout]
      split
      · rw [((swept_invalidateNames s₁ _ _).layout k).eq]
        exact hstored
      · exact hstored

/-- Giving a slot up changes no link. -/
theorem enclosing_giveUpSharing (hs : s.WellFormed) {info : SlotInfo} {i : Nat}
    (hslot : s.slot? l i = some info) (k : LayoutId) :
    ((s.giveUpSharing l i info).layout k).enclosing = (s.layout k).enclosing :=
  (congrArg Layout.enclosing ((retracks_giveUpSharing hs hslot).layout k) : _)

theorem enclosing_fanOutSlot (hs : s.WellFormed) (contexts : List Nat) (replicate : Bool)
    (k : LayoutId) : (((fanOutSlot a slot contexts replicate).run.run s).2.layout k).enclosing
      = (s.layout k).enclosing := by
  rw [fanOutSlot_run]
  split
  · cases hslot : s.slot? (s.layoutOf a) slot with
    | none => rfl
    | some info =>
        dsimp only
        split
        · rfl
        · exact enclosing_giveUpSharing hs hslot k
  · rfl

/-- Operations that convert slots change no link. -/
theorem enclosing_convert (hs : s.Sound) {op : Operation} (hop : s.Spared op)
    (h : ∀ r ∈ op.operands, r ∈ s.roots) (k : LayoutId) :
    ((op.perform s).layout k).enclosing = (s.layout k).enclosing := by
  cases op with
  | writeInContext a slot v =>
      simp only [Operation.operands, List.forall_mem_cons] at h
      rw [Operation.perform, writeInContext_run]
      cases hslot : s.slot? (s.layoutOf a) slot with
      | none => rfl
      | some info =>
          dsimp only
          split
          · exact enclosing_write hs h.2 false k
          · split
            · split
              · rfl
              · exact enclosing_giveUpSharing hs.wellFormed hslot k
            · rfl
  | fanOutSlot a slot contexts replicate =>
      exact enclosing_fanOutSlot hs.wellFormed contexts replicate k
  | fanOutAll a contexts replicate =>
      have hall := fanOutAll_run (s := s) (P := fun s₁ => s₁.Sound ∧ Ref.activation a ∈ s₁.roots
        ∧ (s₁.layout k).enclosing = (s.layout k).enclosing) a contexts replicate ?_
        ⟨hs, h _ List.mem_cons_self, rfl⟩
      · exact hall.2.2
      · rintro slot s₁ ⟨hs₁, ha₁, hsame⟩
        have hadv := advances_fanOutSlot hs₁ ha₁ slot contexts replicate
        refine ⟨hadv.sound hs₁, hadv.mem_roots ha₁, ?_⟩
        exact (enclosing_fanOutSlot hs₁.wellFormed contexts replicate k).trans hsame
  | cleanFanOut a contexts => rfl
  | _ => exact hop.elim

theorem recalls_convert (hs : s.Sound) (hrec : s.Recalls) {op : Operation} (hop : s.Spared op)
    (h : ∀ r ∈ op.operands, r ∈ s.roots) (houtlive : (op.perform s).ParentsOutlive) :
    (op.perform s).Recalls := by
  have hprogress := progress_perform hs h
  have hforeseen : s.Remembers (op.perform s).aliveLayout fun _ _ => False :=
    hrec.weaken hprogress.back fun l p hl hp =>
      houtlive l p ((enclosing_convert hs hop h l).trans hp) hl
  cases op with
  | writeInContext a slot v =>
      simp only [Operation.operands, List.forall_mem_cons] at h
      exact remembers_writeInContext hforeseen hs h.1 h.2 hop fun _ hl _ => hl
  | fanOutSlot a slot contexts replicate =>
      exact remembers_fanOutSlot hforeseen hs (h _ List.mem_cons_self) contexts hop
  | fanOutAll a contexts replicate =>
      exact remembers_fanOutAll hforeseen hs (h _ List.mem_cons_self) contexts hop
  | cleanFanOut a contexts => exact remembers_cleanFanOut hforeseen hs.wellFormed a contexts
  | _ => exact hop.elim

/-- **Every step keeps what is remembered reliable.** -/
theorem ConvertingStep.recalls (h : s.ConvertingStep s₁) (hs : s.Sound) (hrec : s.Recalls) :
    s₁.Recalls := by
  cases h with
  | moving h => exact h.recalls hs hrec
  | convert op hop h houtlive => exact recalls_convert hs hrec hop h houtlive

/-- What every step preserves, a run preserves. -/
theorem ConvertingRun.recalls (h : ConvertingRun s s₁) (hs : s.Sound) (hrec : s.Recalls) :
    s₁.Sound ∧ s₁.Recalls := by
  induction h with
  | refl => exact ⟨hs, hrec⟩
  | tail _ hstep ih => exact ⟨(hstep.step.progress ih.1).sound, hstep.recalls ih.1 ih.2⟩

theorem Converting.recalls (h : Converting s) : s.Sound ∧ s.Recalls := by
  obtain ⟨names, hrun⟩ := h
  exact hrun.recalls (sound_new names) (recalls_new names)

/-- No context plays a part in what is remembered. -/
theorem reliable_leaveContext (h : s.Sound ∧ s.Recalls) (context : Nat) :
    (s.leaveContext context).Reliable := by
  obtain ⟨hs, hrec⟩ := h
  have haside : s.Aside (s.leaveContext context) := ⟨rfl, rfl, rfl, rfl, rfl, rfl, rfl, rfl, rfl⟩
  have hs₁ := (haside.advances hs).sound hs
  have hret := (hrec.aside hs.wellFormed haside rfl).toRetraces
  refine hret.reliable hs₁ fun a ha => ?_
  exact (((Leads.refl s).aside haside).live ha (ha.allocated hs₁.wellFormed)).layoutOf hs.wellFormed

/-- **Converting slots leaves no stale lookup, in any context**, if no lookup has gone past a slot while it
    was empty that is converted then. Whatever is written and removed before and after, and in whichever
    context, each result that is remembered says in each context what the dynamic walk finds there, or
    nothing. -/
theorem converting_reliable (h : Converting s) (context : Nat) : (s.leaveContext context).Reliable :=
  reliable_leaveContext h.recalls context

/-- A value that is replaced by one per context: what was found before is not trusted any more, and in
    each context the value of that context is found. -/
theorem reliable_of_converted :
    let before : List Operation := [.newLayout "m" .singleton {}, .newScope ⟨0⟩ none 0,
      .define ⟨0⟩ ⟨2⟩ (.int 1), .newCache ⟨2⟩, .cachedRead ⟨0⟩ ⟨0⟩, .registerContexts 1,
      .enterContext 1]
    let s₁ := before.foldl Operation.perform (.new ["x"])
    let s := (Operation.cachedRead ⟨0⟩ ⟨0⟩).perform ((Operation.writeInContext ⟨0⟩ 0 (.int 7)).perform s₁)
    (s.leaveContext 1).lookupDynamic ⟨0⟩ ⟨2⟩ = some (.int 7)
      ∧ (s.leaveContext 0).lookupDynamic ⟨0⟩ ⟨2⟩ = some (.int 1)
      ∧ (s.leaveContext 1).Reliable ∧ (s.leaveContext 0).Reliable := by
  intro before s₁ s
  have hrun : ConvertingRun (.new ["x"]) s := by
    have h₁ : ConvertingRun (.new ["x"]) s₁ :=
      Relation.ReflTransGen.mono (fun _ _ h => ConvertingStep.moving h) _ _
        (MovingRun.of_allLexical (by decide +kernel))
    have h₂ := h₁.tail (.convert (.writeInContext ⟨0⟩ 0 (.int 7)) (Or.inr ?_) (by decide +kernel)
      (nesting_of_keepsNesting (s := (Operation.writeInContext ⟨0⟩ 0 (.int 7)).perform s₁)
        (by decide +kernel)).2)
    · have hread : MovingRun ((Operation.writeInContext ⟨0⟩ 0 (.int 7)).perform s₁) s :=
        MovingRun.of_allLexical (by decide +kernel : allLexical _ [.cachedRead ⟨0⟩ ⟨0⟩] = true)
      exact h₂.trans (Relation.ReflTransGen.mono (fun _ _ h => ConvertingStep.moving h) _ _ hread)
    · -- The slot has a token, but not one without a value.
      rintro ⟨n, t, -, -, ht, hvalue⟩
      have htoken : s₁.token (s₁.layoutOf ⟨0⟩) 0 = some ⟨1⟩ := by decide +kernel
      obtain rfl := Option.some.inj (htoken.symm.trans ht)
      have hsome : (s₁.stable ⟨1⟩).value ≠ none := by decide +kernel
      exact hsome hvalue
  have hconverting : Converting s := ⟨["x"], hrun⟩
  exact ⟨by decide +kernel, by decide +kernel, converting_reliable hconverting 1,
    converting_reliable hconverting 0⟩

/-- A slot that was empty when a lookup went past it, and is written for a context: the lookup still says
    what is bound further out. -/
theorem conversion_leaves_stale : ¬ ∀ s a slot v, Reachable s →
    (∀ context, (s.leaveContext context).Reliable) →
    (∀ r ∈ (Operation.writeInContext a slot v).operands, r ∈ s.roots) →
    ∀ context, (((Operation.writeInContext a slot v).perform s).leaveContext context).Reliable := by
  intro h
  have hmoving : Moving ([.newLayout "g" .singleton {}, .newScope ⟨0⟩ none 0,
      .define ⟨0⟩ ⟨2⟩ (.int 1), .newLayout "m" .singleton {}, .newScope ⟨1⟩ (some ⟨0⟩) 0,
      .findOrAddSlot ⟨1⟩ ⟨2⟩, .newCache ⟨2⟩, .cachedRead ⟨0⟩ ⟨1⟩, .registerContexts 1,
      .enterContext 1].foldl Operation.perform (.new ["x"])) := ⟨["x"], .of_allLexical (by decide +kernel)⟩
  have hbefore := fun context => reliable_leaveContext hmoving.recalls context
  have hreliable := h _ ⟨1⟩ 0 (.int 7) hmoving.reachable hbefore (by decide +kernel) 1
  refine not_reliable_of_cached (a := ⟨1⟩) (c := ⟨0⟩) (r := .stable ⟨1⟩ ⟨0⟩)
    (live_of_mem_roots ?_) ?_ ?_ hreliable
  all_goals decide +kernel

end Store

end ScopeCall
