import ScopeCall.Proofs.Alike

/-!
# `ScopeCall.Proofs.Evaluating` — arguments are evaluated out of sight of call sites

Evaluating the arguments of a call reads names and runs active bindings. None of this sees what calls keep
to themselves, and none of it touches a call site. So a call may change its site before it evaluates its
arguments, or after, and nobody can tell.

## Contents
- **Running step by step.** `EvalM.run_bind` and the operations on the store.
- **Staying within a relation.** `EvalM.Within`, and `EvalM.Steady`: relations between stores that evaluation
  never leaves, whatever it evaluates.
- **Evaluation.** `EvalM.Apart`, and `EvalM.Apart.evaluate`.
- **Errors.** `FailsWith`: the errors that a run may end in, and `FailsWith.evaluate`.
-/

namespace ScopeCall

variable {σ : Type}

/-- Two machines differ only in what calls keep. -/
structure Machine.Alike (i : SiteId) (m m' : Machine σ) : Prop where
  store : m.store.Alike i m'.store
  host : m'.host = m.host

theorem Machine.Alike.refl (i : SiteId) (m : Machine σ) : m.Alike i m := ⟨.refl i m.store, rfl⟩

theorem Machine.Alike.trans {i : SiteId} {m m' m'' : Machine σ} (h : m.Alike i m')
    (h' : m'.Alike i m'') : m.Alike i m'' :=
  ⟨h.store.trans h'.store, h'.host.trans h.host⟩

namespace EvalM

variable {α β : Type} {i : SiteId} (m : Machine σ)

/-! ## Running step by step -/

theorem run_bind (act : EvalM σ β) (f : β → EvalM σ α) :
    (act >>= f).run.run m = match act.run.run m with
      | (.ok b, m₁)    => (f b).run.run m₁
      | (.error e, m₁) => (.error e, m₁) := by
  simp only [ExceptT.run_bind, StateT.run_bind]
  rcases act.run.run m with ⟨e | b, m₁⟩ <;> rfl

theorem run_store_bind (f : Store → EvalM σ α) :
    (EvalM.store >>= f).run.run m = (f m.store).run.run m := rfl

theorem run_onStore (act : StoreM α) : (onStore act : EvalM σ α).run.run m
    = (.ok (act.run m.store).1, { m with store := (act.run m.store).2 }) := rfl

theorem run_onStore_bind (act : StoreM β) (f : β → EvalM σ α) : (onStore act >>= f).run.run m
    = (f (act.run m.store).1).run.run { m with store := (act.run m.store).2 } := rfl

theorem run_onCall (act : CallM α) : (onCall act : EvalM σ α).run.run m
    = ((act.run.run m.store).1, { m with store := (act.run.run m.store).2 }) := rfl

theorem run_ofExcept_bind (r : Except EvalError β) (f : β → EvalM σ α) :
    (ofExcept r >>= f).run.run m = match r with
      | .ok b    => (f b).run.run m
      | .error e => (.error e, m) := by
  cases r <;> rfl

/-- Where one step after another succeeds, each does. -/
theorem run_bind_ok {act : EvalM σ β} {f : β → EvalM σ α} {a : α} {m m' : Machine σ}
    (h : (act >>= f).run.run m = (.ok a, m')) :
    ∃ b m₁, act.run.run m = (.ok b, m₁) ∧ (f b).run.run m₁ = (.ok a, m') := by
  rw [run_bind] at h
  generalize act.run.run m = result at h ⊢
  rcases result with ⟨e | b, m₁⟩
  · cases h
  · exact ⟨b, m₁, rfl, h⟩

/-! ## Staying within a relation -/

section Within

variable {getters : Getters σ} {R R' : Store → Store → Prop}

/-- Evaluation that stays within a relation between stores, however it ends. -/
def Within (R : Store → Store → Prop) (act : EvalM σ α) : Prop :=
  ∀ m : Machine σ, R m.store (act.run.run m).2.store

theorem Within.of_result (hrefl : ∀ s, R s s) (r : Except EvalError α) : Within R (ofExcept r : EvalM σ α) := by
  intro m
  cases r <;> exact hrefl m.store

theorem Within.bind (htrans : ∀ {s s' s''}, R s s' → R s' s'' → R s s'') {act : EvalM σ β} {f : β → EvalM σ α}
    (hact : Within R act) (hf : ∀ b, Within R (f b)) : Within R (act >>= f) := by
  intro m
  have hm := hact m
  rw [run_bind]
  generalize act.run.run m = result at hm ⊢
  rcases result with ⟨e | b, m₁⟩
  · exact hm
  · exact htrans hm (hf b m₁)

/-- A relation between stores that looking names up, holding values and running active bindings stay within. -/
structure Steady (getters : Getters σ) (R : Store → Store → Prop) : Prop where
  refl : ∀ s, R s s
  trans : ∀ {s s' s''}, R s s' → R s' s'' → R s s''
  hold : ∀ s rs, R s (s.hold rs)
  cachedRead : ∀ s c a, R s ((Store.cachedRead c a).run s).2
  getter : ∀ (g : GetterId) (m : Machine σ),
    R m.store { m.store with heap := ((getters g).run (m.store.heap, m.host)).2.1 }

theorem Steady.and (h : Steady getters R) (h' : Steady getters R') :
    Steady getters fun s s' => R s s' ∧ R' s s' where
  refl s := ⟨h.refl s, h'.refl s⟩
  trans hs hs' := ⟨h.trans hs.1 hs'.1, h'.trans hs.2 hs'.2⟩
  hold s rs := ⟨h.hold s rs, h'.hold s rs⟩
  cachedRead s c a := ⟨h.cachedRead s c a, h'.cachedRead s c a⟩
  getter g m := ⟨h.getter g m, h'.getter g m⟩

namespace Steady

section

variable (h : Steady getters R)

include h

theorem of_result (r : Except EvalError α) : Within R (ofExcept r : EvalM σ α) := .of_result h.refl r

theorem of_pure (a : α) : Within R (pure a : EvalM σ α) := h.of_result (.ok a)

theorem bind {act : EvalM σ β} {f : β → EvalM σ α} (hact : Within R act) (hf : ∀ b, Within R (f b)) :
    Within R (act >>= f) :=
  Within.bind (R := R) (fun hs => h.trans hs) hact hf

theorem within_hold (vs : List Value) : Within R (EvalM.hold vs : EvalM σ Unit) := fun m => h.hold m.store _

theorem within_force (v : Value) : Within R (EvalM.force getters v) := by
  cases v with
  | active g => exact h.getter g
  | _ => exact h.of_pure _

theorem within_readOrError (c : CacheId) (a : ActivationId) :
    Within R (EvalM.readOrError getters c a) := by
  refine h.bind (h.bind (fun m => h.cachedRead m.store c a) fun found => ?_) fun found => ?_
  · cases found with
    | none => exact h.of_pure _
    | some v => exact h.bind (h.within_force v) fun _ => h.of_pure _
  · cases found with
    | some v => exact h.of_pure _
    | none => exact fun m => h.refl m.store

/-- **Evaluating arguments does no more than look names up, hold values and run active bindings.** -/
theorem within_evaluate (caller : ActivationId) (args : Arguments) (groups : List (List GroupEntry)) :
    Within R (args.evaluate getters caller groups) := by
  induction args generalizing groups with
  | nil => exact h.of_pure _
  | cons spec rest ih =>
      have hcons : ∀ (vs : List Value) (f : List Value → List Value) groups,
          Within R (do EvalM.hold vs; return f (← Arguments.evaluate getters caller rest groups)) :=
        fun vs f groups => h.bind (h.within_hold vs) fun _ => h.bind (ih groups) fun _ => h.of_pure _
      unfold Arguments.evaluate
      cases spec.expr with
      | const v => exact hcons [v] _ groups
      | read c => exact h.bind (h.within_readOrError c caller) fun v => hcons [v] _ groups
      | forward =>
          cases groups with
          | nil => exact ih []
          | cons group groups => exact hcons _ _ groups

end

end Steady

end Within

/-! ## Evaluation -/

/-- Evaluation that has nothing to do with what calls keep. -/
structure Apart (i : SiteId) (act : EvalM σ α) : Prop where
  keeps : ∀ m : Machine σ, m.store.Meanwhile i (act.run.run m).2.store
  blind : ∀ {m m' : Machine σ}, m.Alike i m' → (act.run.run m').1 = (act.run.run m).1
    ∧ (act.run.run m).2.Alike i (act.run.run m').2

namespace Apart

theorem of_result (r : Except EvalError α) : Apart i (ofExcept r : EvalM σ α) where
  keeps := Within.of_result (.refl i) r
  blind h := by
    cases r <;> exact ⟨rfl, h⟩

theorem of_pure (a : α) : Apart i (pure a : EvalM σ α) := of_result (.ok a)

theorem bind {act : EvalM σ β} {f : β → EvalM σ α} (h : Apart i act) (hf : ∀ b, Apart i (f b)) :
    Apart i (act >>= f) where
  keeps := Within.bind (R := Store.Meanwhile i) .trans h.keeps fun b => (hf b).keeps
  blind {m m'} hm := by
    obtain ⟨hsame, halike⟩ := h.blind hm
    rw [run_bind, run_bind]
    generalize act.run.run m = result at hsame halike ⊢
    generalize act.run.run m' = result' at hsame halike ⊢
    rcases result with ⟨r, m₁⟩
    rcases result' with ⟨r', m₁'⟩
    obtain rfl : r' = r := hsame
    cases r' with
    | error e => exact ⟨rfl, halike⟩
    | ok b => exact (hf b).blind halike

/-- Reading the store is no look at what calls keep, if what is read does not depend on it. -/
theorem store_bind {f : Store → EvalM σ α}
    (hf : ∀ {s s' : Store}, s.Alike i s' → f s' = f s) (hap : ∀ s, Apart i (f s)) :
    Apart i (EvalM.store >>= f) where
  keeps m := (hap m.store).keeps m
  blind {m m'} hm := by
    rw [run_store_bind, run_store_bind, hf hm.store]
    exact (hap m.store).blind hm

theorem of_store {act : StoreM α} (h : Store.Apart i act) : Apart i (onStore act : EvalM σ α) where
  keeps m := h.keeps m.store
  blind hm := by
    obtain ⟨hsame, halike⟩ := h.blind hm.store
    rw [run_onStore, run_onStore, hsame]
    exact ⟨rfl, halike, hm.host⟩

theorem hold (vs : List Value) : Apart i (EvalM.hold vs : EvalM σ Unit) := of_store (.hold _)

/-- A getter sees texts, lists and groups, and the state of the embedding program. -/
theorem force (getters : Getters σ) (v : Value) : Apart i (EvalM.force getters v) := by
  cases v with
  | active g =>
      constructor
      · exact fun m => .of_eq rfl rfl rfl
      · intro m m' hm
        have hheap : m'.store.heap = m.store.heap := hm.store.part Store.heap fun _ _ => rfl
        have hrun : (getters g).run (m'.store.heap, m'.host) = (getters g).run (m.store.heap, m.host) := by
          rw [hheap, hm.host]
        have hstep : ∀ m : Machine σ, (EvalM.force getters (.active g)).run.run m
            = (.ok ((getters g).run (m.store.heap, m.host)).1,
              ⟨{ m.store with heap := ((getters g).run (m.store.heap, m.host)).2.1 },
                ((getters g).run (m.store.heap, m.host)).2.2⟩) := fun _ => rfl
        rw [hstep, hstep, hrun]
        refine ⟨rfl, ?_, rfl⟩
        exact hm.store.change (g := fun s => { s with heap := _ }) (fun _ _ => rfl) fun _ => rfl
  | _ => exact of_pure _

theorem read (getters : Getters σ) (c : CacheId) (a : ActivationId) :
    Apart i (EvalM.read getters c a) := by
  refine bind (of_store (.cachedRead c a)) fun found => ?_
  cases found with
  | none => exact of_pure _
  | some v => exact bind (force getters v) fun _ => of_pure _

theorem readOrError (getters : Getters σ) (c : CacheId) (a : ActivationId) :
    Apart i (EvalM.readOrError getters c a) := by
  refine bind (read getters c a) fun found => ?_
  cases found with
  | some v => exact of_pure _
  | none => exact store_bind (fun h => by rw [h.spell, h.cache]) fun s => of_result (.error _)

/-- **Evaluating arguments has nothing to do with what calls keep.** -/
theorem evaluate (getters : Getters σ) (caller : ActivationId) (args : Arguments)
    (groups : List (List GroupEntry)) : Apart i (Arguments.evaluate getters caller args groups) := by
  induction args generalizing groups with
  | nil => exact of_pure _
  | cons spec rest ih =>
      have hcons : ∀ (vs : List Value) (f : List Value → List Value) groups,
          Apart i (do EvalM.hold vs; return f (← Arguments.evaluate getters caller rest groups)) :=
        fun vs f groups => bind (hold vs) fun _ => bind (ih groups) fun _ => of_pure _
      unfold Arguments.evaluate
      cases spec.expr with
      | const v => exact hcons [v] _ groups
      | read c => exact bind (readOrError getters c caller) fun v => hcons [v] _ groups
      | forward =>
          cases groups with
          | nil => exact ih []
          | cons group groups => exact hcons _ _ groups

end Apart

theorem steady_meanwhile (getters : Getters σ) (i : SiteId) : Steady getters (Store.Meanwhile i) where
  refl := .refl i
  trans := .trans
  hold s rs := (Store.Apart.hold (i := i) rs).keeps s
  cachedRead s c a := (Store.Apart.cachedRead (i := i) c a).keeps s
  getter _ _ := .of_eq rfl rfl rfl

end EvalM

/-! ## Errors -/

/-- A run that fails, if it does, with an error of these, whatever it starts from. -/
def FailsWith {α τ : Type} (P : EvalError → Prop) (act : ExceptT EvalError (StateM τ) α) : Prop :=
  ∀ t e, (act.run.run t).1 = .error e → P e

namespace FailsWith

variable {α β τ : Type} {P : EvalError → Prop}

theorem of_pure (a : α) : FailsWith P (pure a : ExceptT EvalError (StateM τ) α) := by
  intro t e h
  cases h

theorem of_error {e : EvalError} (he : P e) : FailsWith P (throw e : ExceptT EvalError (StateM τ) α) := by
  intro t e' h
  cases h
  exact he

theorem bind {act : ExceptT EvalError (StateM τ) β} {f : β → ExceptT EvalError (StateM τ) α}
    (hact : FailsWith P act) (hf : ∀ b, FailsWith P (f b)) : FailsWith P (act >>= f) := by
  intro t
  have ht := hact t
  rw [ExceptT.run_bind, StateT.run_bind]
  generalize act.run.run t = result at ht ⊢
  rcases result with ⟨e | b, t₁⟩
  · intro e' h
    cases h
    exact ht e rfl
  · exact hf b t₁

theorem of_state (act : StateM τ α) : FailsWith P (liftM act : ExceptT EvalError (StateM τ) α) := by
  intro t e h
  cases h

theorem of_store (act : StoreM α) : FailsWith P (EvalM.onStore act : EvalM σ α) := by
  intro m e h
  cases h

theorem of_call {act : CallM α} (h : FailsWith P act) : FailsWith P (EvalM.onCall act : EvalM σ α) :=
  fun m => h m.store

theorem of_result {r : Except EvalError α} (h : ∀ e, r = .error e → P e) :
    FailsWith P (EvalM.ofExcept r : EvalM σ α) := by
  cases r with
  | ok a => exact of_pure a
  | error e => exact of_error (h e rfl)

/-- The bookkeeping fails with faults. -/
theorem of_fault (hfault : ∀ fault, P (.internal fault)) (act : FaultM α) : FailsWith P (CallM.ofFaultM act) := by
  intro s e h
  have hrun : (CallM.ofFaultM act).run.run s = ((act.run.run s).1.mapError .internal, (act.run.run s).2) := by
    unfold CallM.ofFaultM
    rw [ExceptT.run_mk, StateT.run_bind]
    rcases act.run.run s with ⟨fault | r, s₁⟩ <;> rfl
  rw [hrun] at h
  cases hact : (act.run.run s).1 with
  | ok r =>
      rw [hact] at h
      cases h
  | error fault =>
      rw [hact] at h
      cases h
      exact hfault fault

theorem force (getters : Getters σ) (v : Value) : FailsWith P (EvalM.force getters v) := by
  cases v with
  | active g =>
      intro m e h
      cases h
  | _ => exact of_pure _

section

variable (getters : Getters σ) (caller : ActivationId) (hundefined : ∀ name, P (.undefinedVariable name))

include hundefined

theorem readOrError (cache : CacheId) : FailsWith P (EvalM.readOrError getters cache caller) := by
  refine bind (bind (of_store _) fun found => ?_) fun found => ?_
  · cases found with
    | none => exact of_pure _
    | some v => exact bind (force getters v) fun _ => of_pure _
  · cases found with
    | none => exact bind (of_store get) fun s => of_error (hundefined _)
    | some v => exact of_pure v

/-- **Evaluating arguments fails only where a name is unbound.** -/
theorem evaluate (args : Arguments) (groups : List (List GroupEntry)) :
    FailsWith P (args.evaluate getters caller groups) := by
  induction args generalizing groups with
  | nil => exact of_pure _
  | cons spec rest ih =>
      have hcons : ∀ (vs : List Value) (f : List Value → List Value) groups,
          FailsWith P (do EvalM.hold vs; return f (← Arguments.evaluate getters caller rest groups)) :=
        fun vs f groups => bind (of_store _) fun _ => bind (ih groups) fun _ => of_pure _
      unfold Arguments.evaluate
      cases spec.expr with
      | const v => exact hcons [v] _ groups
      | read cache => exact bind (readOrError getters caller hundefined cache) fun v => hcons [v] _ groups
      | forward =>
          cases groups with
          | nil => exact ih []
          | cons group groups => exact hcons _ _ groups

end

end FailsWith

end ScopeCall
