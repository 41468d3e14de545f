import ScopeCall.Proofs.Entering
import ScopeCall.Proofs.Serving

/-!
# `ScopeCall.Proofs.Calling` — the body that runs, and control given to it

A node runs the body of its function, or a copy that it has had made of it. Giving control to the body opens a
scope and binds arguments there; it leaves every call site as it is, and of the functions all but how often a
body has run.

## Contents
- **Copies.** `dispatchTarget_spec`.
- **Invoking.** `LeavesSite`, and `meanwhile_invoke`.
-/

namespace ScopeCall

variable {s s' : Store} {i : SiteId} {c : CallableId} {owner : Nat → Option CallableId}

/-! ## Copies -/

theorem dispatchOf?_eq_some {n : Node} {d : Dispatch} (h : Chain.dispatchOf? n = some d) :
    n = .fixed d ∨ ∃ names next, n = .variadicCase names d next := by
  cases n with
  | fixed d₁ =>
      obtain rfl := Option.some.inj h
      exact Or.inl rfl
  | variadicCase names d₁ next =>
      obtain rfl := Option.some.inj h
      exact Or.inr ⟨names, next, rfl⟩
  | _ => cases h

/-- The dispatch in a node that fits is up to date. -/
theorem Node.Fits.upToDate {n : Node} {d : Dispatch} {site : CallSite} {k : Nat}
    (h : n.Fits s site owner k) (hd : Chain.dispatchOf? n = some d) : ∃ names, d.UpToDate s names := by
  rcases dispatchOf?_eq_some hd with rfl | ⟨names, next, rfl⟩
  · exact ⟨_, h.2.2⟩
  · exact ⟨names, h.2.2.2⟩

/-- A node with a dispatch fits with another one for the same function. -/
theorem Node.Fits.withDispatch {n : Node} {d d' : Dispatch} {site : CallSite} {k : Nat}
    (h : n.Fits s site owner k) (hd : Chain.dispatchOf? n = some d) (hcallable : d'.callable = d.callable)
    (hdispatch : ∀ names, d.UpToDate s names → d'.UpToDate s names) :
    (Chain.withDispatch d' n).Fits s site owner k := by
  rcases dispatchOf?_eq_some hd with rfl | ⟨names, next, rfl⟩
  · obtain ⟨hmade, hforwards, hup⟩ := h
    exact ⟨hcallable ▸ hmade, hforwards, hdispatch _ hup⟩
  · obtain ⟨hmade, hforwards, hbehind, hup⟩ := h
    exact ⟨hcallable ▸ hmade, hforwards, hcallable ▸ hbehind, hdispatch _ hup⟩

theorem callables_withDispatch {n : Node} {d d' : Dispatch} (hd : Chain.dispatchOf? n = some d)
    (hcallable : d'.callable = d.callable) : (Chain.withDispatch d' n).callables = n.callables := by
  rcases dispatchOf?_eq_some hd with rfl | ⟨names, next, rfl⟩
  · exact congrArg (fun c => [c]) hcallable
  · exact congrArg (fun c => [c]) hcallable

namespace Store

/-- Demands for callers are nobody's business. -/
theorem alike_demands (i : SiteId) (s : Store) (ds : Array Guard) : s.Alike i { s with demands := ds } :=
  ⟨rfl, rfl, fun _ _ => rfl, rfl, rfl, fun _ => rfl, le_rfl, fun _ _ => rfl, fun _ => Iff.rfl,
    fun _ hr => hr, fun _ hr => Or.inl hr⟩

/-- A dispatch may be replaced in its node by one for the same function. -/
theorem Served.redispatch (h : s.Served i owner) {id : NodeId} {n : Node} {d : Dispatch} (d' : Dispatch)
    (hn : (s.site i).nodes[id.index]? = some n) (hd : Chain.dispatchOf? n = some d)
    (hcallable : d'.callable = d.callable)
    (hdispatch : ∀ names, d.UpToDate s names → d'.UpToDate s names) :
    (s.setNodes i ((s.site i).nodes.modify id.index (Chain.withDispatch d'))).Served i owner
      ∧ s.Alike i (s.setNodes i ((s.site i).nodes.modify id.index (Chain.withDispatch d'))) := by
  have hsize : ((s.site i).nodes.modify id.index (Chain.withDispatch d')).size
      = (s.site i).nodes.size := Array.size_modify
  -- Each node either is as it was, or is the one that held the dispatch.
  have hget : ∀ k : Nat, ((s.site i).nodes.modify id.index (Chain.withDispatch d'))[k]?
        = (s.site i).nodes[k]?
      ∨ k = id.index ∧ ((s.site i).nodes.modify id.index (Chain.withDispatch d'))[k]?
        = some (Chain.withDispatch d' n) := by
    intro k
    rw [Array.getElem?_modify]
    by_cases hk : id.index = k
    · subst hk
      rw [if_pos rfl, hn]
      exact Or.inr ⟨rfl, rfl⟩
    · rw [if_neg hk]
      exact Or.inl rfl
  have hsame := callables_withDispatch hd hcallable
  constructor
  · refine h.setNodes hsize.ge (fun _ _ => rfl) (fun k hk => h.checked k (hsize ▸ hk)) fun k x hx => ?_
    rcases hget k with heq | ⟨rfl, heq⟩
    · exact Or.inl (heq.symm.trans hx)
    · obtain rfl := Option.some.inj (heq.symm.trans hx)
      refine Or.inr (((h.fits _ _ hn).withDispatch hd hcallable hdispatch).transfer rfl rfl ?_
        fun _ _ hup => hup)
      exact fun id' made hb => ⟨hb.1, hsize.symm ▸ hb.2.1, hb.2.2⟩
  · apply alike_setNodes h.site
    · intro x hx c hc
      obtain ⟨k, hk⟩ := Array.mem_iff_getElem?.1 hx
      rcases hget k with heq | ⟨rfl, heq⟩
      · exact ⟨x, Array.mem_of_getElem? (heq.trans hk), hc⟩
      · obtain rfl := Option.some.inj (hk.symm.trans hn)
        exact ⟨_, Array.mem_of_getElem? heq, hsame ▸ hc⟩
    · intro x hx c hc
      obtain ⟨k, hk⟩ := Array.mem_iff_getElem?.1 hx
      rcases hget k with heq | ⟨rfl, heq⟩
      · exact Or.inl ⟨x, Array.mem_of_getElem? (heq.symm.trans hk), hc⟩
      · obtain rfl := Option.some.inj (heq.symm.trans hk)
        exact Or.inl ⟨n, Array.mem_of_getElem? hn, hsame ▸ hc⟩

/-- The store after a copy has been made of the body of a function. -/
def copied (s : Store) (c : CallableId) (t : TargetId) : Store :=
  { s.modifyCallable c fun callable => { callable with copies := callable.copies + 1 } with
    targets := s.targets.push { body := (s.target t).body, dedicated := true } }

theorem dedicatedCopy_run (s : Store) (c : CallableId) : (dedicatedCopy c).run s
    = match (s.callable c).target? with
      | none   => (none, s)
      | some t => (some ⟨s.targets.size⟩, s.copied c t) := by
  unfold dedicatedCopy
  rw [run_get_bind_state]
  cases (s.callable c).target? with
  | none => rfl
  | some t => rfl

theorem callable_copied (s : Store) (c c' : CallableId) (t : TargetId) : (s.copied c t).callable c'
    = { s.callable c' with copies := ((s.copied c t).callable c').copies } := by
  have hget : (s.copied c t).callable c' = if c'.index = c.index ∧ c.index < s.callables.size
      then { s.callable c with copies := (s.callable c).copies + 1 } else s.callable c' :=
    Array.getD_modify s.callables c.index c'.index _
  rw [hget]
  split
  · rename_i h
    have hsame : c' = c := congrArg CallableId.mk h.1
    rw [hsame]
  · rfl

theorem target_copied (s : Store) (c : CallableId) (t t' : TargetId) : (s.copied c t).target t'
    = if t'.index = s.targets.size then { body := (s.target t).body, dedicated := true }
      else s.target t' :=
  Array.getD_push s.targets _ t'.index

theorem size_targets_copied (s : Store) (c : CallableId) (t : TargetId) :
    (s.copied c t).targets.size = s.targets.size + 1 := Array.size_push _

theorem size_callables_copied (s : Store) (c : CallableId) (t : TargetId) :
    (s.copied c t).callables.size = s.callables.size := Array.size_modify

theorem meanwhile_copied (i : SiteId) (s : Store) (c : CallableId) (t : TargetId) :
    s.Meanwhile i (s.copied c t) where
  sites := le_rfl
  site := rfl
  callables := (size_callables_copied s c t).ge
  callable c' _ := callable_copied s c c' t
  targets := by
    rw [size_targets_copied]
    exact Nat.le_succ _
  body t' ht' := by
    rw [target_copied, if_neg (Nat.ne_of_lt ht')]
  bodies h c' t' ht' := by
    rw [callable_copied] at ht'
    rw [size_targets_copied]
    exact Nat.lt_succ_of_lt (h c' t' ht')

theorem alike_copied (i : SiteId) (s : Store) (c : CallableId) (t : TargetId) :
    s.Alike i (s.copied c t) where
  rest := rfl
  sites := rfl
  others _ _ := rfl
  here := rfl
  callables := size_callables_copied s c t
  callable c' := callable_copied s c c' t
  targets := by
    rw [size_targets_copied]
    exact Nat.le_succ _
  target t' ht' := by
    rw [target_copied, if_neg (Nat.ne_of_lt ht')]
  stack _ := Iff.rfl
  keeps _ hr := hr
  adds _ hr := Or.inl hr

/-- The dispatch of a node once its copy has been asked for. -/
def settled (d : Dispatch) (copy : Option TargetId) : Dispatch :=
  { d with splitPending := false, dedicated := copy }

theorem dispatchTarget_run (s : Store) (i : SiteId) (id : NodeId) (d : Dispatch) :
    (Chain.dispatchTarget i id d).run s = if d.splitPending then
        let copy := ((dedicatedCopy d.callable).run s).1
        let s₁ := ((dedicatedCopy d.callable).run s).2
        let s₂ := s₁.setNodes i ((s₁.site i).nodes.modify id.index
          (Chain.withDispatch (settled d copy)))
        (copy <|> (s₂.callable d.callable).target?, s₂)
      else (d.dedicated <|> (s.callable d.callable).target?, s) := by
  unfold Chain.dispatchTarget
  by_cases hsplit : d.splitPending = true
  · rw [if_pos hsplit, if_pos hsplit, run_bind_state, run_bind_state]
    have hnodes : ∀ (s : Store) (g : Node → Node), (s.modifySite i fun site =>
        { site with nodes := site.nodes.modify id.index g })
          = s.setNodes i ((s.site i).nodes.modify id.index g) := fun s g => modifySite_congr rfl
    dsimp only
    rw [← hnodes]
    rfl
  · rw [if_neg hsplit, if_neg hsplit]
    rfl

/-- **A node runs the body of its function**, or a copy of it. -/
theorem dispatchTarget_spec (h : s.Served i owner) {id : NodeId} {n : Node} {d : Dispatch}
    (hn : (s.site i).nodes[id.index]? = some n) (hd : Chain.dispatchOf? n = some d) :
    ((Chain.dispatchTarget i id d).run s).2.Served i owner
      ∧ s.Alike i ((Chain.dispatchTarget i id d).run s).2
      ∧ ((Chain.dispatchTarget i id d).run s).1.map ((Chain.dispatchTarget i id d).run s).2.bodyOf
        = (s.callable d.callable).target?.map s.bodyOf := by
  obtain ⟨names, hdispatch⟩ := (h.fits _ _ hn).upToDate hd
  rw [dispatchTarget_run]
  by_cases hsplit : d.splitPending = true
  · rw [if_pos hsplit, dedicatedCopy_run]
    cases ht : (s.callable d.callable).target? with
    | none =>
        dsimp only
        obtain ⟨hserved, halike⟩ := h.redispatch (settled d none) hn hd rfl fun names hd =>
          ⟨hd.made, hd.matched, fun t ht => by cases ht⟩
        refine ⟨hserved, halike, ?_⟩
        have hnone : ((s.setNodes i ((s.site i).nodes.modify id.index
            (Chain.withDispatch (settled d none)))).callable d.callable).target? = none := ht
        rw [hnone]
        rfl
    | some t =>
        have hmeanwhile := meanwhile_copied i s d.callable t
        have hbody : (s.copied d.callable t).bodyOf ⟨s.targets.size⟩ = s.bodyOf t := by
          unfold bodyOf
          rw [target_copied, if_pos rfl]
        have hrun := hmeanwhile.bodyOf h.bodies hdispatch.made
        rw [ht] at hrun
        obtain ⟨hserved, halike⟩ := (h.meanwhile hmeanwhile).redispatch
          (settled d (some ⟨s.targets.size⟩)) hn hd rfl fun names hd =>
            ⟨hd.made, hd.matched, fun t' ht' => by
              obtain rfl := Option.some.inj ht'
              refine ⟨?_, ?_⟩
              · rw [size_targets_copied]
                exact Nat.lt_succ_self _
              · rw [hbody]
                exact hrun.symm⟩
        refine ⟨hserved, (alike_copied i s d.callable t).trans halike, ?_⟩
        exact congrArg some hbody
  · rw [if_neg hsplit]
    refine ⟨h, .refl i s, ?_⟩
    cases ht : d.dedicated with
    | none => rfl
    | some t => exact (hdispatch.dedicated t ht).2

/-! ## Invoking -/

/-- Sites, functions and bodies are the same. -/
structure SameCalls (s s' : Store) : Prop where
  sites : s'.sites = s.sites
  callables : s'.callables = s.callables
  targets : s'.targets = s.targets

theorem SameCalls.meanwhile {s₁ : Store} (h : s.SameCalls s₁) (i : SiteId) : s.Meanwhile i s₁ :=
  .of_eq h.sites h.callables h.targets

/-- Sites and functions have nothing to do with scopes. -/
theorem OnlyScopes.sameCalls (h : s.OnlyScopes s') : s.SameCalls s' :=
  ⟨h.part Store.sites fun _ _ => rfl, h.part Store.callables fun _ _ => rfl,
    h.part Store.targets fun _ _ => rfl⟩

theorem sameCalls_initializeEnclosing (s : Store) (l : LayoutId) (parent : Option LayoutId) :
    s.SameCalls ((initializeEnclosing l parent).run.run s).2 :=
  (onlyScopes_initializeEnclosing s l parent).1.sameCalls

theorem sameCalls_newScope (s : Store) (l : LayoutId) (enclosing : Option ActivationId) (depth : Nat) :
    s.SameCalls ((newScope l enclosing depth).run.run s).2 :=
  (onlyScopes_newScope s l enclosing depth).sameCalls

theorem sameCalls_findOrAddSlot (s : Store) (l : LayoutId) (n : Name) :
    s.SameCalls ((findOrAddSlot l n).run s).2 :=
  (onlyScopes_findOrAddSlot s l n).sameCalls

theorem sameCalls_bindArguments (s : Store) (a : ActivationId) (args : List (Formal × Option Value)) :
    s.SameCalls ((bindArguments a args).run.run s).2 :=
  (onlyScopes_bindArguments s a args).sameCalls

theorem meanwhile_modifyTarget (i : SiteId) (s : Store) (t : TargetId) (f : CallTarget → CallTarget)
    (hf : ∀ target, (f target).body = target.body) : s.Meanwhile i (s.modifyTarget t f) := by
  have hget : ∀ t', (s.modifyTarget t f).target t' = if t'.index = t.index ∧ t.index < s.targets.size
      then f (s.target t) else s.target t' := fun t' => Array.getD_modify s.targets t.index t'.index f
  have hsize : (s.modifyTarget t f).targets.size = s.targets.size := Array.size_modify
  refine ⟨le_rfl, rfl, le_rfl, fun _ _ => rfl, hsize.ge, fun t' _ => ?_, fun h c t' ht' => ?_⟩
  · rw [hget]
    split
    · rename_i h
      have hsame : t' = t := congrArg TargetId.mk h.1
      rw [hf, hsame]
    · rfl
  · rw [hsize]
    exact h c t' ht'

/-- An operation that leaves a site and the functions alone, however it ends. -/
def LeavesSite (i : SiteId) {ε α : Type} (act : ExceptT ε StoreM α) : Prop :=
  ∀ s : Store, s.Meanwhile i (act.run.run s).2

namespace LeavesSite

variable {ε α β : Type}

theorem of_pure (r : α) : LeavesSite i (pure r : ExceptT ε StoreM α) := fun s => .refl i s

theorem bind {act : ExceptT ε StoreM β} {f : β → ExceptT ε StoreM α} (h : LeavesSite i act)
    (hf : ∀ b, LeavesSite i (f b)) : LeavesSite i (act >>= f) := by
  intro s
  have hact := h s
  rw [run_except_bind]
  generalize act.run.run s = result at hact ⊢
  rcases result with ⟨e | b, s₁⟩
  · exact hact
  · exact hact.trans (hf b s₁)

theorem get_bind {f : Store → ExceptT ε StoreM α} (hf : ∀ s, LeavesSite i (f s)) :
    LeavesSite i (get >>= f) :=
  fun s => hf s s

theorem of_modify {g : Store → Store} (hg : ∀ s : Store, s.Meanwhile i (g s)) :
    LeavesSite i (modify g : ExceptT ε StoreM Unit) := hg

theorem of_faultM {act : FaultM α} (h : ∀ s : Store, s.SameCalls (act.run.run s).2) :
    LeavesSite i (CallM.ofFaultM act) := by
  intro s
  rw [ofFaultM_run]
  exact (h s).meanwhile i

end LeavesSite

/-- **Giving control to a callee changes no site and no function**: the body that runs is counted, and all
    else happens to scopes. -/
theorem meanwhile_invoke (i : SiteId) (maxDepth : Nat) (caller : ActivationId) (c : CallableId)
    (target : Option TargetId) (args : List (Option Value)) (demand : CallerDemand) :
    LeavesSite i (invoke maxDepth caller c target args demand) := by
  have hhold : ∀ rs, LeavesSite i (modify (·.hold rs) : CallM Unit) := fun rs =>
    .of_modify fun s => .of_eq rfl rfl rfl
  unfold invoke
  refine .bind (hhold _) fun _ => .get_bind fun s => ?_
  dsimp only
  cases (s.callable c).kind with
  | intrinsic body => exact .of_pure _
  | closure l enclosing shared =>
      dsimp only
      split
      · exact fun s => .refl i s
      · refine .bind (.of_faultM fun s => sameCalls_newScope s l _ _) fun a => .bind (hhold _) fun _ => ?_
        refine .bind (.of_faultM fun s => sameCalls_bindArguments s a _) fun _ => .get_bind fun s₁ => ?_
        exact .bind (.of_modify fun s => meanwhile_modifyTarget i s _ _ fun _ => rfl) fun _ => .of_pure _

end Store

end ScopeCall
