import ScopeCall.Proofs.Placing
import ScopeCall.Proofs.Runs

/-!
# `ScopeCall.Proofs.Aligning` — names and values of supplied arguments line up

The names of the supplied arguments and their values come from two walks over the arguments as written, and
each walk splices in the forwarded groups for itself. Here the arguments of one call are listed once, each
with where it comes from; both walks follow this list. So a position means the same argument to matching,
which sees names only, and to binding, which sees values.

## Contents
- **Contributions.** `Arguments.contributions`, and `Arguments.flattenedNames_eq`.
- **Values.** `Arguments.Evaluates`: the machine goes from one contribution to the next, and each yields a
  value. `Arguments.evaluates_of_run`.
- **Positions.** What matching places is there to be bound: `Arguments.names_and_values_line_up`.
-/

namespace ScopeCall

namespace Arguments

/-! ## Contributions -/

/-- Where one supplied argument comes from: it is written at the call, or stands in a forwarded group. -/
inductive Contribution where
  | written (spec : ArgSpec)
  | spliced (entry : GroupEntry)
deriving DecidableEq, Repr

/-- The name under which an argument is supplied. -/
def Contribution.name : Contribution → Option Name
  | .written spec  => spec.name
  | .spliced entry => entry.name

/-- Where the arguments of a call come from, in order. A forward stands for the entries of the next group,
    if there is one, and not for an argument of its own, even if it is written with a name. -/
def contributions : Arguments → List (List GroupEntry) → List Contribution
  | [], _ => []
  | spec :: rest, groups =>
    match spec.expr with
    | .forward => (groups.headD []).map .spliced ++ contributions rest groups.tail
    | _        => .written spec :: contributions rest groups

theorem flattenedNames_eq (args : Arguments) (groups : List (List GroupEntry)) :
    flattenedNames args groups = (contributions args groups).map Contribution.name := by
  induction args generalizing groups with
  | nil => rfl
  | cons spec rest ih =>
    unfold flattenedNames contributions ArgSpec.isForward
    cases spec.expr with
    | const v => simp [ih, Contribution.name]
    | read c  => simp [ih, Contribution.name]
    | forward =>
      cases groups with
      | nil => simp [ih]
      | cons group groups => simp [ih, Function.comp_def, Contribution.name]

/-! ## Values -/

variable {σ : Type}

/-- The machine once some values are kept alive. -/
def keeping (m : Machine σ) (vs : List Value) : Machine σ :=
  { m with store := m.store.hold (vs.flatMap Value.refs) }

variable {getters : Getters σ} {caller : ActivationId} {m m' m₁ : Machine σ}

variable (getters caller) in
/-- The contributions yield these values, one after the other: a constant is its own value, a name is read on the
    machine that is there by then, and an entry of a group carries its value along. Entries of a group are
    kept alive together. -/
inductive Evaluates : Machine σ → List Contribution → List Value → Machine σ → Prop where
  | done (m : Machine σ) : Evaluates m [] [] m
  | const {spec : ArgSpec} {v : Value} {cs : List Contribution} {vs : List Value} {m m' : Machine σ} :
      spec.expr = .const v → Evaluates (keeping m [v]) cs vs m' →
        Evaluates m (.written spec :: cs) (v :: vs) m'
  | read {spec : ArgSpec} {c : CacheId} {v : Value} {cs : List Contribution} {vs : List Value}
      {m m₁ m' : Machine σ} :
      spec.expr = .read c → (EvalM.readOrError getters c caller).run.run m = (.ok v, m₁) →
        Evaluates (keeping m₁ [v]) cs vs m' → Evaluates m (.written spec :: cs) (v :: vs) m'
  | group (entries : List GroupEntry) {cs : List Contribution} {vs : List Value} {m m' : Machine σ} :
      Evaluates (keeping m (entries.map (·.value))) cs vs m' →
        Evaluates m (entries.map .spliced ++ cs) (entries.map (·.value) ++ vs) m'

theorem evaluates_of_run {args : Arguments} {groups : List (List GroupEntry)} {values : List Value}
    (h : (evaluate getters caller args groups).run.run m = (.ok values, m')) :
    Evaluates getters caller m (contributions args groups) values m' := by
  induction args generalizing groups values m with
  | nil =>
    cases h
    exact .done _
  | cons spec rest ih =>
    -- Values are kept alive, and the rest is evaluated on the machine that keeps them.
    have hrest : ∀ (vs : List Value) (f : List Value → List Value) groups (m : Machine σ),
        (do EvalM.hold vs; return f (← evaluate getters caller rest groups) : EvalM σ _).run.run m
          = (.ok values, m') → ∃ others, values = f others
            ∧ Evaluates getters caller (keeping m vs) (contributions rest groups) others m' := by
      intro vs f groups m hrun
      obtain ⟨_, m₁, hhold, hrun⟩ := EvalM.run_bind_ok hrun
      cases hhold
      obtain ⟨others, m₂, hothers, hrun⟩ := EvalM.run_bind_ok hrun
      cases hrun
      exact ⟨others, rfl, ih hothers⟩
    unfold evaluate at h
    unfold contributions
    cases hexpr : spec.expr with
    | const v =>
      rw [hexpr] at h
      obtain ⟨others, rfl, hothers⟩ := hrest [v] (v :: ·) groups m h
      exact .const hexpr hothers
    | read c =>
      rw [hexpr] at h
      obtain ⟨v, m₁, hread, h⟩ := EvalM.run_bind_ok h
      obtain ⟨others, rfl, hothers⟩ := hrest [v] (v :: ·) groups m₁ h
      exact .read hexpr hread hothers
    | forward =>
      -- A forward without a group contributes nothing, to either walk.
      rw [hexpr] at h
      cases groups with
      | nil => exact ih h
      | cons group groups =>
        obtain ⟨others, rfl, hothers⟩ := hrest _ (group.map (·.value) ++ ·) groups m h
        exact .group group hothers

variable (getters caller) in
/-- What an argument comes from yields this value, on some machine if it is read. -/
def Contribution.Yields : Contribution → Value → Prop
  | .written ⟨_, .const w⟩, v => v = w
  | .written ⟨_, .read c⟩,  v =>
    ∃ m m₁ : Machine σ, (EvalM.readOrError getters c caller).run.run m = (.ok v, m₁)
  | .written ⟨_, .forward⟩, _ => False
  | .spliced entry,         v => v = entry.value

/-- Each contribution yields the value at its own position. -/
theorem Evaluates.yields {cs : List Contribution} {values : List Value}
    (h : Evaluates getters caller m cs values m') :
    List.Forall₂ (Contribution.Yields getters caller) cs values := by
  induction h with
  | done m => exact .nil
  | @const spec v _ _ _ _ hexpr _ ih =>
    obtain ⟨name, expr⟩ := spec
    obtain rfl : expr = .const v := hexpr
    exact .cons rfl ih
  | @read spec c v _ _ m m₁ _ hexpr hread _ ih =>
    obtain ⟨name, expr⟩ := spec
    obtain rfl : expr = .read c := hexpr
    exact .cons ⟨m, m₁, hread⟩ ih
  | group entries _ ih =>
    refine List.rel_append ?_ ih
    rw [List.forall₂_map_left_iff, List.forall₂_map_right_iff]
    exact List.forall₂_same.mpr fun _ _ => rfl

/-! ## Positions -/

/-- Matching by the standard rules, whether it is recorded or not, gives each formal positions of arguments that
    are supplied. -/
theorem matches_by_rules {policy : Matcher} (hpolicy : policy = .standard ∨ policy = .recording)
    {c : CallableId} {names : SuppliedNames} {source : String} {allowReorder : Bool} {s s' : Store}
    {matched : MatchedArguments}
    (h : (Store.runMatcher policy c names source allowReorder).run.run s = (.ok matched, s')) :
    Matching.Follows (s.callable c).formals names matched := by
  have hstandard : s.matchStandard c names allowReorder = .ok matched := by
    rcases hpolicy with rfl | rfl
    · rw [Store.runMatcher_standard] at h
      exact congrArg Prod.fst h
    · rw [Store.runMatcher_recording] at h
      exact congrArg Prod.fst h
  exact Matching.follows_of_run hstandard

/-- **Names and values line up.** If the arguments of a call are evaluated, there is one value for each name that
    matching sees: name and value at a position are those of one contribution. So every position that the
    rules of matching give to a formal is that of a value, and binding hands each formal all that it was
    matched with. -/
theorem names_and_values_line_up {args : Arguments} {groups : List (List GroupEntry)} {values : List Value}
    (h : (evaluate getters caller args groups).run.run m = (.ok values, m')) :
    flattenedNames args groups = (contributions args groups).map Contribution.name
      ∧ Evaluates getters caller m (contributions args groups) values m'
      ∧ List.Forall₂ (Contribution.Yields getters caller) (contributions args groups) values
      ∧ values.length = (flattenedNames args groups).length
      ∧ ∀ policy c source allowReorder s s' matched, policy = .standard ∨ policy = .recording →
        (Store.runMatcher policy c (flattenedNames args groups) source allowReorder).run.run s
          = (.ok matched, s') →
        (∀ source ∈ matched.sources, ∀ i ∈ source.positions, i < values.length)
          ∧ ∀ heap, List.Forall₂
            (fun p r => p.2.Gives
              ((matched.bind (s.callable c).formals (flattenedNames args groups) values).run heap).2
              (flattenedNames args groups) values p.1 r)
            ((s.callable c).formals.zip matched.sources)
            ((matched.bind (s.callable c).formals (flattenedNames args groups) values).run heap).1 := by
  have hevaluates := evaluates_of_run h
  have hnames := flattenedNames_eq args groups
  have hlength := evaluate_length h
  refine ⟨hnames, hevaluates, hevaluates.yields, hlength, ?_⟩
  intro policy c source allowReorder s s' matched hpolicy hmatched
  have hfollows := matches_by_rules hpolicy hmatched
  refine ⟨?_, fun heap => MatchedArguments.bind_gives hfollows hlength heap⟩
  intro source hsource i hi
  have hplaced : i ∈ matched.sources.flatMap FormalSource.positions :=
    List.mem_flatMap.mpr ⟨source, hsource, hi⟩
  rw [hlength]
  exact List.mem_range.mp (hfollows.each_once.mem_iff.mp hplaced)

/-- A module binds `x` to `5`, and there is a function `f(x, ...)`. -/
def forwardingStore : Store :=
  { [Store.Operation.newLayout "m" .singleton {}, .newScope ⟨0⟩ none 0, .define ⟨0⟩ ⟨2⟩ (.int 5),
      .newCache ⟨2⟩].foldl Store.Operation.perform (.new ["x", "k", "f"]) with
    callables := #[
      { name := ⟨4⟩, label := "f", formals := [{ name := ⟨2⟩ }, .variadic], wantsCaller := false
        wantsDedicatedCopy := false, kind := .intrinsic ⟨0⟩ }] }

/-- The arguments of `f(1, k = ..., x, ...)`. -/
def forwardingArgs : Arguments :=
  [{ expr := .const (.int 1) }, { name := some ⟨3⟩, expr := .forward }, { expr := .read ⟨0⟩ },
    { expr := .forward }]

/-- With one group `k = 2, 3` for its two forwards, the call supplies `1, k = 2, 3, 5`. -/
theorem names_and_values_line_up_forwarding :
    let getters : Getters Unit := fun _ => pure .null
    let groups : List (List GroupEntry) := [[⟨some ⟨3⟩, .int 2⟩, ⟨none, .int 3⟩]]
    let names := flattenedNames forwardingArgs groups
    ∃ m', (evaluate getters ⟨0⟩ forwardingArgs groups).run.run ⟨forwardingStore, ()⟩
        = (.ok [.int 1, .int 2, .int 3, .int 5], m')
      ∧ names.length = 4 ∧ ∃ matched, (Store.runMatcher .standard ⟨0⟩ names "" false).run.run forwardingStore
          = (.ok matched, forwardingStore)
        ∧ matched.sources = [.supplied 0, .collected [1, 2, 3]]
        ∧ ∀ source ∈ matched.sources, ∀ i ∈ source.positions, i < 4 := by
  intro getters groups names
  have hvalues : ((evaluate getters ⟨0⟩ forwardingArgs groups).run.run ⟨forwardingStore, ()⟩).1
      = .ok [.int 1, .int 2, .int 3, .int 5] := by
    decide +kernel
  have hmatched : (Store.runMatcher .standard ⟨0⟩ names "" false).run.run forwardingStore
      = (.ok ⟨[.supplied 0, .collected [1, 2, 3]], false⟩, forwardingStore) := by
    rw [Store.runMatcher_standard]
    exact congrArg (·, forwardingStore) (by decide +kernel)
  obtain ⟨-, -, -, hlength, hbound⟩ := names_and_values_line_up (Prod.ext hvalues rfl)
  exact ⟨_, Prod.ext hvalues rfl, hlength.symm, _, hmatched, rfl,
    (hbound .standard ⟨0⟩ "" false _ _ _ (.inl rfl) hmatched).1⟩

end Arguments

end ScopeCall
