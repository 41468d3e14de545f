import ScopeCall.Chain
import ScopeCall.Proofs.Evaluating
import ScopeCall.Proofs.Matching

/-!
# `ScopeCall.Proofs.Gathering` — a call up to its callee

Before control goes to a callee, a call checks names, reads what it forwards, matches, evaluates its
arguments and binds them. `Chain.gather` does just that, as a site without a cache would. Nothing of it
sees or touches what calls keep to themselves.

## Contents
- **Matching.** What depends on spelling and order of evaluation, and what does not.
- **Gathering.** `Chain.gather`, and `Chain.runGeneric_run`.
- **Out of sight.** `Chain.gather_apart`.
-/

namespace ScopeCall

/-! ## Matching -/

namespace Matching

variable {spell : Name → String} {callee : String} {formals : List Formal} {supplied : SuppliedNames}
  {allowReorder : Bool}

/-- A match that succeeds has met neither an empty name nor a repeated one. -/
theorem distinct_of_run {m : MatchedArguments} (h : run spell callee formals supplied allowReorder = .ok m) :
    some Name.empty ∉ supplied ∧ ∀ j n, ¬ Repeats formals supplied j n := by
  have hempty : some Name.empty ∉ supplied := by
    intro hempty
    rw [run_empty hempty] at h
    cases h
  refine ⟨hempty, fun j n hj => ?_⟩
  obtain ⟨k, n', hfirst⟩ := exists_firstRepeat hj
  rw [run_repeated hempty hfirst] at h
  cases h

/-- A match that is made once holds however names are spelled. -/
theorem run_respell {m : MatchedArguments}
    (h : run spell callee formals supplied allowReorder = .ok m) (spell' : Name → String)
    (callee' : String) (allowReorder' : Bool) :
    run spell' callee' formals supplied allowReorder' = .ok { m with allowsReorder := allowReorder' } := by
  obtain ⟨hempty, hdistinct⟩ := distinct_of_run h
  rw [run_of_distinct hempty hdistinct] at h ⊢
  cases hc : formals.findIdx? Formal.isVariadic with
  | some c =>
      rw [hc] at h
      cases h
      rfl
  | none =>
      rw [hc] at h
      cases hleft : unplaced formals supplied with
      | nil =>
          rw [hleft] at h
          cases h
          rfl
      | cons k rest =>
          rw [hleft] at h
          cases h

/-- Whether arguments may be evaluated in any order is only noted in the match. -/
theorem run_reorder (allowReorder' : Bool) : run spell callee formals supplied allowReorder'
    = (run spell callee formals supplied allowReorder).map ({ · with allowsReorder := allowReorder' }) := by
  unfold run
  split
  · rfl
  dsimp only
  cases placeNamed spell formals 0 supplied (.start formals.length supplied.length) with
  | error e => rfl
  | ok named =>
      dsimp only [bind, Except.bind]
      generalize placePositional _ 0 supplied 0 named = p
      cases formals.findIdx? Formal.isVariadic with
      | some c => rfl
      | none =>
          cases leftovers p with
          | nil => rfl
          | cons i rest =>
              dsimp only
              cases supplied[i]?.join <;> rfl

/-- A match that fails does so in any order of evaluation. -/
theorem run_error {e : EvalError} (h : run spell callee formals supplied allowReorder = .error e)
    (allowReorder' : Bool) : run spell callee formals supplied allowReorder' = .error e := by
  rw [run_reorder, h]
  rfl

end Matching

namespace Store

/-- Matching by the standard rules only reads the store. -/
theorem runMatcher_standard (s : Store) (c : CallableId) (names : SuppliedNames) (source : String)
    (allowReorder : Bool) : (runMatcher .standard c names source allowReorder).run.run s
      = (s.matchStandard c names allowReorder, s) := by
  show (runMatcher.liftExcept (s.matchStandard c names allowReorder)).run.run s = _
  cases s.matchStandard c names allowReorder <;> rfl

/-- The store after a match has been entered into the log. -/
def logged (s : Store) (c : CallableId) (names : SuppliedNames) (source : String) (allowReorder : Bool) :
    Store :=
  { s with matchLog := s.matchLog
      ++ [⟨(s.callable c).label, names.map (·.map s.spell), source, allowReorder⟩] }

theorem runMatcher_recording (s : Store) (c : CallableId) (names : SuppliedNames) (source : String)
    (allowReorder : Bool) : (runMatcher .recording c names source allowReorder).run.run s
      = (s.matchStandard c names allowReorder, s.logged c names source allowReorder) := by
  show (runMatcher.liftExcept (s.matchStandard c names allowReorder)).run.run
    (s.logged c names source allowReorder) = _
  cases s.matchStandard c names allowReorder <;> rfl

namespace Alike

variable {s s' : Store} {i : SiteId} (h : s.Alike i s')

include h

theorem matchStandard (c : CallableId) (names : SuppliedNames) (allowReorder : Bool) :
    s'.matchStandard c names allowReorder = s.matchStandard c names allowReorder := by
  unfold Store.matchStandard
  rw [h.callable, h.spell]

theorem readGroups (args : Arguments) (caller : ActivationId) :
    args.readGroups s' caller = args.readGroups s caller := by
  unfold Arguments.readGroups
  rw [h.lookupDynamic]

theorem siteArgs : (s'.site i).args = (s.site i).args := by rw [h.here]

theorem siteMatcher : (s'.site i).matcher = (s.site i).matcher := by rw [h.here]

theorem siteSource : (s'.site i).source = (s.site i).source := by rw [h.here]

theorem siteMaxDepth : (s'.site i).maxDepth = (s.site i).maxDepth := by rw [h.here]

theorem formals (c : CallableId) : (s'.callable c).formals = (s.callable c).formals := by
  rw [h.callable]

end Alike

end Store

/-! ## Gathering -/

namespace Chain

variable {σ : Type} {i : SiteId}

/-- Evaluates the arguments and binds them. -/
def collect (getters : Getters σ) (args : Arguments) (caller : ActivationId) (c : CallableId)
    (entries : List (List GroupEntry)) (names : SuppliedNames) (matched : MatchedArguments) :
    EvalM σ (List (Option Value)) := do
  let values ← Arguments.evaluate getters caller args entries
  EvalM.onStore do
    let formals := ((← get).callable c).formals
    Store.onHeap (matched.bind formals names values)

/-- All that a call does before its callee gets control, if nothing is cached: the values that it binds to
    the formals. -/
def gather (getters : Getters σ) (i : SiteId) (caller : ActivationId) (c : CallableId) :
    EvalM σ (List (Option Value)) := do
  let s ← EvalM.store
  let site := s.site i
  EvalM.ofExcept (Arguments.checkNames site.args)
  let groups ← EvalM.ofExcept (Arguments.readGroups site.args s caller)
  EvalM.hold (groups.map Value.group)
  let entries := Arguments.entriesOf s groups
  let names := Arguments.flattenedNames site.args entries
  let matched ← EvalM.onCall (Store.runMatcher site.matcher c names site.source true)
  collect getters site.args caller c entries names matched

/-- **Matching a call anew is gathering and then invoking.** -/
theorem runGeneric_run (getters : Getters σ) (demand : CallerDemand) (caller : ActivationId)
    (c : CallableId) (m : Machine σ) :
    (runGeneric getters i demand caller c).run.run m
      = match (gather getters i caller c).run.run m with
        | (.ok bound, m₁) => (EvalM.onCall (Store.invoke (m.store.site i).maxDepth caller c
            (m₁.store.callable c).target? bound demand)).run.run m₁
        | (.error e, m₁) => (.error e, m₁) := by
  unfold runGeneric gather collect
  rw [EvalM.run_store_bind, EvalM.run_store_bind]
  dsimp only
  rw [EvalM.run_ofExcept_bind, EvalM.run_ofExcept_bind]
  cases Arguments.checkNames (m.store.site i).args with
  | error e => rfl
  | ok _ =>
      dsimp only
      rw [EvalM.run_ofExcept_bind, EvalM.run_ofExcept_bind]
      cases Arguments.readGroups (m.store.site i).args m.store caller with
      | error e => rfl
      | ok groups =>
          dsimp only
          rw [EvalM.run_bind, EvalM.run_bind]
          rcases (EvalM.hold (groups.map Value.group)).run.run m with ⟨e | _, m₁⟩
          · rfl
          dsimp only
          rw [EvalM.run_bind, EvalM.run_bind]
          generalize (EvalM.onCall (Store.runMatcher (m.store.site i).matcher c _ _ true)).run.run m₁
            = result
          rcases result with ⟨e | matched, m₂⟩
          · rfl
          dsimp only
          rw [EvalM.run_bind, EvalM.run_bind]
          generalize (Arguments.evaluate getters caller (m.store.site i).args _).run.run m₂ = result
          rcases result with ⟨e | values, m₃⟩ <;> rfl

/-- The machine while a call uses the groups that it forwards. -/
def holding (m : Machine σ) (groups : List GroupId) : Machine σ :=
  { m with store := m.store.hold ((groups.map Value.group).flatMap Value.refs) }

/-- Gathering by the standard rules of matching: what can fail, and in which order. -/
theorem gather_run (getters : Getters σ) (caller : ActivationId) (c : CallableId) {m : Machine σ}
    (hstandard : (m.store.site i).matcher = .standard) :
    (gather getters i caller c).run.run m
      = match Arguments.checkNames (m.store.site i).args with
        | .error e => (.error e, m)
        | .ok _ => match Arguments.readGroups (m.store.site i).args m.store caller with
          | .error e => (.error e, m)
          | .ok groups =>
            let entries := Arguments.entriesOf m.store groups
            let names := Arguments.flattenedNames (m.store.site i).args entries
            match m.store.matchStandard c names true with
            | .error e => (.error e, holding m groups)
            | .ok matched => (collect getters (m.store.site i).args caller c entries names
                matched).run.run (holding m groups) := by
  unfold gather
  rw [EvalM.run_store_bind]
  dsimp only
  rw [EvalM.run_ofExcept_bind]
  cases Arguments.checkNames (m.store.site i).args with
  | error e => rfl
  | ok _ =>
      dsimp only
      rw [EvalM.run_ofExcept_bind]
      cases Arguments.readGroups (m.store.site i).args m.store caller with
      | error e => rfl
      | ok groups =>
          dsimp only
          have hhold : ∀ f : Unit → EvalM σ (List (Option Value)),
              (EvalM.hold (groups.map Value.group) >>= f).run.run m = (f ()).run.run (holding m groups) :=
            fun f => rfl
          have hsame : (holding m groups).store.matchStandard c = m.store.matchStandard c := rfl
          rw [hhold, hstandard, EvalM.run_bind, EvalM.run_onCall, Store.runMatcher_standard, hsame]
          cases m.store.matchStandard c _ true <;> rfl

/-! ## Out of sight -/

theorem collect_apart (getters : Getters σ) (args : Arguments) (caller : ActivationId) (c : CallableId)
    (entries : List (List GroupEntry)) (names : SuppliedNames) (matched : MatchedArguments) :
    EvalM.Apart i (collect getters args caller c entries names matched) := by
  refine .bind (.evaluate getters caller args entries) fun values => .of_store ?_
  exact .get_bind (fun h => by rw [h.formals]) fun s => .onHeap _

theorem runMatcher_apart (matcher : Matcher) (c : CallableId) (names : SuppliedNames) (source : String)
    (allowReorder : Bool) : EvalM.Apart i (EvalM.onCall
      (Store.runMatcher matcher c names source allowReorder) : EvalM σ MatchedArguments) := by
  cases matcher with
  | standard =>
      constructor
      · intro m
        rw [EvalM.run_onCall, Store.runMatcher_standard]
        exact .refl i m.store
      · intro m m' h
        rw [EvalM.run_onCall, EvalM.run_onCall, Store.runMatcher_standard, Store.runMatcher_standard,
          h.store.matchStandard]
        exact ⟨rfl, h⟩
  | recording =>
      constructor
      · intro m
        rw [EvalM.run_onCall, Store.runMatcher_recording]
        exact .of_eq rfl rfl rfl
      · intro m m' h
        rw [EvalM.run_onCall, EvalM.run_onCall, Store.runMatcher_recording, Store.runMatcher_recording,
          h.store.matchStandard]
        refine ⟨rfl, ?_, h.host⟩
        unfold Store.logged
        rw [h.store.callable, h.store.spell]
        exact h.store.change (g := fun s => { s with matchLog := s.matchLog ++ [_] }) (fun _ _ => rfl)
          fun _ => rfl
  | fixed answer => exact .of_result (.ok answer)
  | refusing message => exact .of_result (.error _)

/-- **Gathering has nothing to do with what calls keep.** -/
theorem gather_apart (getters : Getters σ) (caller : ActivationId) (c : CallableId) :
    EvalM.Apart i (gather getters i caller c) := by
  refine .store_bind (fun h => ?_) fun s => ?_
  · dsimp only
    rw [h.siteArgs, h.siteMatcher, h.siteSource, h.entriesOf, h.readGroups]
  · refine .bind (.of_result _) fun _ => .bind (.of_result _) fun groups => ?_
    refine .bind (.hold _) fun _ => .bind (runMatcher_apart _ c _ _ true) fun matched => ?_
    exact collect_apart getters _ caller c _ _ matched

end Chain

end ScopeCall
