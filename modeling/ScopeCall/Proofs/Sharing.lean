import ScopeCall.Proofs.Tidying

/-!
# `ScopeCall.Proofs.Sharing` — results that several activations of a layout share

A result is remembered at a layout, for every activation of it. The walk that finds it gives up where the
scopes are not nested as their layouts are, but reading through a result that is there already asks for no
walk. Activations whose walks end all share one finding; an activation whose own walk gives up is answered
what another has found.

## Contents
- **Walks.** `says_of_walk`, and `finding_of_walks`: two walks from one layout come to the same.
- **What reads leave alone.** `Store.Rereads`.
- **Results.** `Learns.reliableAt`: a new result, as it is seen from another activation.
- **Runs of reads.** `shared_lookup_reliable`, and in `sharing_leaves_stale` a lookup that is answered to the
  wrong activation.
-/

namespace ScopeCall

namespace Store

variable {s s₁ s₂ : Store} {a b : ActivationId} {n : Name}

/-! ## Walks -/

/-- **A walk finds what the dynamic walk finds**, however scopes are nested. -/
theorem says_of_walk (hs : s.Sound) (ho : s.Orderly) (ha : s.Live (.activation a)) {fuel : Nat}
    {f : Finding} {path : List ActivationId} (hw : s.walk n fuel a = some (f, path)) :
    s.Says f (s.lookupFrom n fuel (some a)) := by
  have hview : ∀ {b}, s.Live (.activation b) → s.view (s.layoutOf b) n = s.stopAt (s.layoutOf b) n :=
    fun hb => (stopAt_eq_view hs ho.claimed hb n).symm
  replace hw := walks_of_walk hw
  -- The walk and the lookup take the same steps outwards; the walk may only stop sooner.
  induction hw with
  | stop hstop => exact says_of_view hs ho.claimed ha ((hview ha).trans hstop) _
  | @root fuel a hstop _ hnext =>
      rw [lookupFrom, readName_of_passOn hs ha ((hview ha).trans hstop), hnext]
      cases fuel <;> rfl
  | up hstop _ hnext _ ih =>
      rw [lookupFrom, readName_of_passOn hs ha ((hview ha).trans hstop), hnext]
      exact ih (ha.enclosing hs.wellFormed hnext)

/-- **Two walks that start at one layout and end come to the same**: they are at one layout all the way. -/
theorem finding_of_walks {fuel : Nat} {f g : Finding} {p q : List ActivationId}
    (hlayout : s.layoutOf b = s.layoutOf a) (hwa : s.walk n fuel a = some (f, p))
    (hwb : s.walk n fuel b = some (g, q)) : f = g := by
  replace hwa := walks_of_walk hwa
  replace hwb := walks_of_walk hwb
  -- Where a walk stops, and whether it goes on, depends on the layout alone.
  induction hwa generalizing b q with
  | stop hstop =>
      cases hwb with
      | stop hstop' => exact Stop.found.inj (hstop.symm.trans (hlayout ▸ hstop'))
      | root hstop' | up hstop' => simp [← hlayout, hstop'] at hstop
  | root hstop halong =>
      cases hwb with
      | stop hstop' => simp [← hlayout, hstop'] at hstop
      | root => rfl
      | up _ halong' => simp [← hlayout, halong'] at halong
  | up hstop halong _ _ ih =>
      cases hwb with
      | stop hstop' => simp [← hlayout, hstop'] at hstop
      | root _ halong' => simp [← hlayout, halong'] at halong
      | up _ halong' _ hrest =>
          exact ih (Option.some.inj ((hlayout ▸ halong').symm.trans halong)) hrest

/-- The scopes around an activation are nested as their layouts are. -/
def Follows (s : Store) (b : ActivationId) : Prop :=
  ∀ e, e = b ∨ s.Inside b e → (s.layout (s.layoutOf e)).enclosing = (s.activation e).enclosing.map s.layoutOf

/-- A walk ends from an activation if it ends from any other of its layout. -/
def WalksAlong (s : Store) (b : ActivationId) (n : Name) : Prop :=
  ∀ a, s.Live (.activation a) → s.layoutOf a = s.layoutOf b →
    (s.walk n s.chainBound a).isSome = true → (s.walk n s.chainBound b).isSome = true

theorem Follows.walk_isSome (h : s.Follows b) (hlayout : s.layoutOf a = s.layoutOf b) {fuel : Nat}
    (hw : (s.walk n fuel a).isSome = true) : (s.walk n fuel b).isSome = true := by
  rw [Option.isSome_iff_exists] at hw
  obtain ⟨⟨f, path⟩, hw⟩ := hw
  replace hw := walks_of_walk hw
  suffices hwb : ∃ q, s.Walks n fuel b f q by
    obtain ⟨q, hwb⟩ := hwb
    exact Option.isSome_of_eq_some hwb.walk_eq
  -- The invariant is that both walks are at one layout, and that the second follows the layouts from there.
  induction hw generalizing b with
  | stop hstop => exact ⟨_, .stop (hlayout ▸ hstop)⟩
  | root hstop halong hnext =>
      rw [hlayout] at hstop halong
      exact ⟨_, .root hstop halong (Option.map_eq_none_iff.1 ((h b (Or.inl rfl)).symm.trans halong))⟩
  | up hstop halong _ _ ih =>
      rw [hlayout] at hstop halong
      obtain ⟨e, hnext, hsame⟩ := Option.map_eq_some_iff.1 ((h b (Or.inl rfl)).symm.trans halong)
      have hfollows : s.Follows e := by
        intro c hc
        refine h c (Or.inr ?_)
        rcases hc with rfl | hc
        · exact .single hnext
        · exact .head hnext hc
      obtain ⟨q, hrest⟩ := ih hfollows hsame.symm
      exact ⟨_, .up hstop (hsame ▸ halong) hnext hrest⟩

/-- From a scope that is nested as its layouts are, a walk ends wherever another of its layout does. -/
theorem Follows.walksAlong (h : s.Follows b) (n : Name) : s.WalksAlong b n :=
  fun _ _ hlayout hw => h.walk_isSome hlayout hw

/-! ## What reads leave alone -/

/-- Bindings, links and claims are as they were, and nothing has come back to life. -/
structure Rereads (s s' : Store) : Prop where
  scopes : s.SameScopes s'
  stables : s'.stables = s.stables
  singleton : ∀ k, (s'.layout k).singleton = (s.layout k).singleton
  back : ∀ b, s'.Live (.activation b) → s.Live (.activation b)

theorem Rereads.refl (s : Store) : s.Rereads s := ⟨.refl s, rfl, fun _ => rfl, fun _ => id⟩

theorem Rereads.trans (h : s.Rereads s₁) (h' : s₁.Rereads s₂) : s.Rereads s₂ where
  scopes := h.scopes.trans h'.scopes
  stables := h'.stables.trans h.stables
  singleton k := (h'.singleton k).trans (h.singleton k)
  back b hb := h.back b (h'.back b hb)

section Reread

variable (h : s.Rereads s₁)
include h

theorem Rereads.stable : s₁.stable = s.stable := by
  unfold Store.stable
  rw [h.stables]

theorem Rereads.activation (b : ActivationId) : s₁.activation b = s.activation b := by
  rw [Store.activation, h.scopes.activations, ← Store.activation]

theorem Rereads.view (k : LayoutId) (n : Name) : s₁.view k n = s.view k n :=
  view_of_layout n (h.scopes.slots k) (h.singleton k) h.stable

/-- Walks from activations alive go as before. -/
theorem Rereads.walk (hs : s.Sound) (ho : s.Orderly) (hs₁ : s₁.Sound) (ho₁ : s₁.Orderly)
    (hb : s₁.Live (.activation b)) (fuel : Nat) : s₁.walk n fuel b = s.walk n fuel b := by
  induction fuel generalizing b with
  | zero => rfl
  | succ fuel ih =>
      -- Whether a walk stops is a matter of views, and reads change no view.
      have hstop : s₁.stopAt (s.layoutOf b) n = s.stopAt (s.layoutOf b) n := by
        have hstop₁ := stopAt_eq_view hs₁ ho₁.claimed hb n
        rw [h.scopes.layoutOf, h.view] at hstop₁
        rw [hstop₁, stopAt_eq_view hs ho.claimed (h.back b hb)]
      have hlayoutOf : s₁.layoutOf = s.layoutOf := funext h.scopes.layoutOf
      rw [Store.walk, Store.walk]
      dsimp only
      rw [hlayoutOf, hstop, h.activation, isEnclosedBy, h.scopes.enclosing, ← isEnclosedBy]
      cases hnext : (s.activation b).enclosing with
      | none => rfl
      | some e =>
          have he := hb.enclosing hs₁.wellFormed ((congrArg Activation.enclosing (h.activation b)).trans hnext)
          dsimp only
          rw [ih he]

theorem Rereads.walksAlong (hs : s.Sound) (ho : s.Orderly) (hs₁ : s₁.Sound) (ho₁ : s₁.Orderly)
    (hb : s₁.Live (.activation b)) (hwalks : s.WalksAlong b n) : s₁.WalksAlong b n := by
  have hbound : s₁.chainBound = s.chainBound := by
    unfold chainBound
    rw [h.scopes.activations]
  intro a ha hlayout hw
  rw [h.scopes.layoutOf, h.scopes.layoutOf] at hlayout
  rw [hbound, h.walk hs ho hs₁ ho₁ ha] at hw
  rw [hbound, h.walk hs ho hs₁ ho₁ hb]
  exact hwalks a (h.back a ha) hlayout hw

end Reread

/-! ## Results -/

/-- What is stored in a slot is stored in an activation that exists. -/
theorem allocated_of_read {i : Nat} {w : Value} (h : s.read a i = some w) : s.Allocated (.activation a) := by
  by_contra ha
  simp only [Allocated, Nat.not_lt] at ha
  simp [read, readIn, content, activation, Array.getElem?_eq_none ha, default,
    instInhabitedActivation.default, Activation.content, SlotContent.readIn] at h

/-- What a result says after reads it said before, if it says anything. -/
theorem Rereads.agrees {r : LookupResult} {o : Option Value} (h : s.Rereads s₁) (hs : s.Sound)
    (hs₁ : s₁.Sound) (hvalid : s₁.resultValid r = true → s.resultValid r = true)
    (hr : (s.readResult r).Agrees o) : (s₁.readResult r).Agrees o := by
  refine agrees_of_valid fun hv₁ => ?_
  have hv := hvalid hv₁
  unfold readResult at hr ⊢
  rw [if_pos hv] at hr
  rw [if_pos hv₁]
  cases r with
  | stable t g =>
      dsimp only at hr ⊢
      rwa [h.stable]
  | boundAt c i g =>
      dsimp only at hr ⊢
      cases hread : (s₁.upgradeActivation c).bind fun c => s₁.read c i with
      | none => trivial
      | some w =>
          obtain ⟨d, hd, hw⟩ := Option.bind_eq_some_iff.1 hread
          unfold upgradeActivation at hd
          split at hd
          · rename_i hlive₁
            obtain rfl := Option.some.inj hd
            -- The activation is alive, so it was alive before, and holds what it held.
            have hlive := h.back c ((isLive_iff hs₁.wellFormed (allocated_of_read hw)).1 hlive₁)
            have hup := (isLive_iff hs.wellFormed (hlive.allocated hs.wellFormed)).2 hlive
            have hsame : s.read c i = some w := by
              rwa [read, readIn, content, h.activation, h.scopes.contexts, ← content, ← readIn,
                ← read] at hw
            rw [upgradeActivation, if_pos hup, Option.bind_some, hsame] at hr
            exact hr
          · simp at hd
  | unbound g => exact hr

/-- A result for a name that reading from an activation comes to: what its layout remembers, or what a walk
    finds. -/
def Comes (s : Store) (a : ActivationId) (n : Name) (r : LookupResult) : Prop :=
  (s.layout (s.layoutOf a)).memo? n = some r
    ∨ ∃ path, s.walk n s.chainBound a = some (r.finding, path)

/-- One result may have been added, for a name at a layout, to those that are remembered. -/
structure Recounts (s s' : Store) (l : LayoutId) (m : Name) (r : LookupResult) : Prop where
  memo : ∀ k n q, (s'.layout k).memo? n = some q → (s.layout k).memo? n = some q ∨ k = l ∧ n = m ∧ q = r
  name : ∀ c, (s'.cache c).name = (s.cache c).name
  cached : ∀ c k q, (s'.cache c).cached = some (k, q) →
    (s.cache c).cached = some (k, q) ∨ k = l ∧ (s.cache c).name = m ∧ q = r
  valid : ∀ g, g.index < s.lookups.size → s'.lookupValid g = true → s.lookupValid g = true

theorem Learns.recounts {l : LayoutId} {m : Name} {r : LookupResult} (h : s.Learns s₁ l m r) :
    s.Recounts s₁ l m r := by
  have hcache : ∀ c, s₁.cache c = s.cache c := fun c => by rw [cache, h.caches, ← cache]
  refine ⟨fun k n q hq => ?_, fun c => by rw [hcache], fun c k q hq => Or.inl (by rwa [hcache] at hq),
    h.valid⟩
  rw [h.memo] at hq
  split at hq
  · rename_i hwhere
    exact Or.inr ⟨hwhere.1, hwhere.2, (Option.some.inj hq).symm⟩
  · exact Or.inl hq

/-- **What a read leaves behind can be relied on** from every activation from which the walk ends if it ends
    from another of the layout. -/
theorem Recounts.reliableAt {m : Name} {r : LookupResult} (h : s.Recounts s₁ (s.layoutOf a) m r)
    (hr : s.Comes a m r) (ha : s.Live (.activation a)) (hre : s.Rereads s₁) (hs : s.Sound) (ho : s.Orderly)
    (hs₁ : s₁.Sound) (hb : s.Live (.activation b)) (hrel : s.ReliableAt b n) (hwalks : s.WalksAlong b n) :
    s₁.ReliableAt b n := by
  have hkept : ∀ {q : LookupResult}, q.guard.index < s.lookups.size → s₁.resultValid q = true →
      s.resultValid q = true := fun {q} hq hv => by
    rw [resultValid_eq, Bool.and_eq_true] at hv ⊢
    refine ⟨h.valid _ hq hv.1, ?_⟩
    rw [← hv.2]
    unfold findingValid stableValid
    rw [hre.stable]
  -- What was remembered before is right as it was; a result that is new is right where the walk from `b` ends.
  have hold : ∀ q, (s.layout (s.layoutOf b)).memo? n = some q →
      (s₁.readResult q).Agrees (s₁.lookupDynamic b n) := fun q hq => by
    rw [hre.scopes.lookupDynamic]
    exact hre.agrees hs hs₁ (hkept (ho.memoGuards _ _ _ hq)) (hrel.memo q hq)
  have hadded : s.layoutOf b = s.layoutOf a → n = m →
      (s₁.readResult r).Agrees (s₁.lookupDynamic b n) := by
    rintro hlayout rfl
    rcases hr with hmemo | ⟨path, hw⟩
    · exact hold r (hlayout ▸ hmemo)
    · obtain ⟨⟨g, q⟩, hwb⟩ := Option.isSome_iff_exists.1 (hwalks a ha hlayout.symm (by rw [hw]; rfl))
      have hspeaks := says_of_walk hs ho hb hwb
      rw [← finding_of_walks hlayout hw hwb] at hspeaks
      rw [hre.scopes.lookupDynamic]
      exact agrees_readResult (hspeaks.same hre.scopes hre.stable)
  refine ⟨fun q hq => ?_, fun c q hc hq => ?_⟩
  · rw [hre.scopes.layoutOf] at hq
    rcases h.memo _ _ _ hq with hq | ⟨hl, hn, rfl⟩
    · exact hold q hq
    · exact hadded hl hn
  · rw [hre.scopes.layoutOf] at hq
    rw [h.name] at hc
    rcases h.cached _ _ _ hq with hq | ⟨hl, hm, rfl⟩
    · rw [hre.scopes.lookupDynamic]
      exact hre.agrees hs hs₁ (hkept (ho.cacheGuards _ _ _ hq)) (hrel.cached c q hc hq)
    · exact hadded hl (hc.symm.trans hm)

/-! ## Runs of reads -/

/-- One read from some activation alive. -/
inductive ReadStep (s : Store) : Store → Prop where
  | resolve (a : ActivationId) (n : Name) (ha : s.Live (.activation a)) :
      ReadStep s ((resolve a n).run s).2
  | cachedRead (c : CacheId) (a : ActivationId) (ha : s.Live (.activation a)) :
      ReadStep s ((cachedRead c a).run s).2

/-- Reads one after another, each from any activation alive and for any name. -/
abbrev Reads : Store → Store → Prop := Relation.ReflTransGen ReadStep

/-- A read spares the bindings, and adds at most one result, which its activation comes to. -/
structure Reading (s s' : Store) : Prop where
  rereads : s.Rereads s'
  sound : s'.Sound
  orderly : s'.Orderly
  adds : s' = s ∨ ∃ a m r, s.Live (.activation a) ∧ s.Comes a m r ∧ s.Recounts s' (s.layoutOf a) m r

theorem Recounts.refl (s : Store) (l : LayoutId) (m : Name) (r : LookupResult) : s.Recounts s l m r :=
  ⟨fun _ _ _ => Or.inl, fun _ => rfl, fun _ _ _ => Or.inl, fun _ _ => id⟩

/-- The read site may keep the result too. -/
theorem Recounts.modifyCache {l : LayoutId} {m : Name} {r : LookupResult} (h : s.Recounts s₁ l m r)
    {c : CacheId} (hc : (s.cache c).name = m) :
    s.Recounts (s₁.modifyCache c fun cache => { cache with cached := some (l, r) }) l m r := by
  refine ⟨h.memo, fun d => ?_, fun d k q hq => ?_, h.valid⟩
  · rw [cache_modifyCache]
    split
    · rename_i hd
      rw [show d = c from congrArg CacheId.mk hd.1]
      exact h.name c
    · exact h.name d
  · rw [cache_modifyCache] at hq
    split at hq
    · rename_i hd
      obtain ⟨rfl, rfl⟩ := Prod.mk.inj (Option.some.inj hq)
      rw [show d = c from congrArg CacheId.mk hd.1]
      exact Or.inr ⟨rfl, hc, rfl⟩
    · exact h.cached d k q hq

/-- Resolving a name adds at most the result that it answers. -/
theorem recounts_resolve (hs : s.Sound) (ha : s.Live (.activation a)) (n : Name) :
    s.Rereads ((resolve a n).run s).2
      ∧ match (resolve a n).run s with
        | (none, s₁)   => s₁ = s
        | (some r, s₁) => s.Comes a n r ∧ s.Recounts s₁ (s.layoutOf a) n r := by
  have hspares := (spares_resolve hs.wellFormed ha n).1
  have hcases := resolve_cases hs ha n
  generalize (resolve a n).run s = result at *
  rcases result with ⟨answer, s₁⟩
  dsimp only at hspares hcases
  -- Either the result was remembered and nothing changes, or a walk found it and it is the one that is added.
  rcases hcases with ⟨rfl, hmemo⟩ | ⟨f, path, hw, rfl, hlearns⟩
  · refine ⟨.refl s₁, ?_⟩
    cases answer with
    | none => rfl
    | some r => exact ⟨Or.inl (hmemo r rfl), .refl _ _ _ _⟩
  · refine ⟨⟨hlearns.scopes, hlearns.stables, hlearns.singleton,
      fun b => hspares.live_activation hs.wellFormed⟩,
      Or.inr ⟨path, ?_⟩, hlearns.recounts⟩
    rw [LookupResult.finding_toResult, hw]

theorem reading_resolve (hs : s.Sound) (ho : s.Orderly) (ha : s.Live (.activation a)) (n : Name) :
    s.Reading ((resolve a n).run s).2 := by
  have hsound := ((spares_resolve hs.wellFormed ha n).1.advances hs).sound hs
  have horderly := (orderly_resolve hs ho ha n).1
  obtain ⟨hre, hadds⟩ := recounts_resolve hs ha n
  generalize (resolve a n).run s = result at *
  refine ⟨hre, hsound, horderly, ?_⟩
  rcases result with ⟨_ | r, s₁⟩
  · exact Or.inl hadds
  · exact Or.inr ⟨a, n, r, ha, hadds⟩

theorem reading_cachedRead (hs : s.Sound) (ho : s.Orderly) (ha : s.Live (.activation a)) (c : CacheId) :
    s.Reading ((cachedRead c a).run s).2 := by
  have hspares := spares_cachedRead hs.wellFormed ha c
  have hsound := (hspares.advances hs).sound hs
  have horderly := orderly_cachedRead hs ho ha c
  rw [cachedRead_run] at hspares hsound horderly ⊢
  cases hremembered : s.remembered c (s.layoutOf a) with
  | value v => exact ⟨.refl s, hs, ho, Or.inl rfl⟩
  | unbound => exact ⟨.refl s, hs, ho, Or.inl rfl⟩
  | noInformation =>
      rw [hremembered] at hspares hsound horderly
      obtain ⟨hre, hadds⟩ := recounts_resolve hs ha (s.cache c).name
      generalize (resolve a (s.cache c).name).run s = result at *
      rcases result with ⟨_ | r, s₁⟩
      · exact ⟨hre, hsound, horderly, Or.inl hadds⟩
      · refine ⟨⟨hre.scopes.trans ⟨rfl, fun _ => rfl, fun _ => rfl, rfl⟩, hre.stables, hre.singleton,
          fun b => hspares.live_activation hs.wellFormed⟩, hsound, horderly,
          Or.inr ⟨a, (s.cache c).name, r, ha, hadds.1, ?_⟩⟩
        exact hadds.2.modifyCache rfl

theorem ReadStep.reading (h : s.ReadStep s₁) (hs : s.Sound) (ho : s.Orderly) : s.Reading s₁ := by
  cases h with
  | resolve a n ha => exact reading_resolve hs ho ha n
  | cachedRead c a ha => exact reading_cachedRead hs ho ha c

/-- What one read preserves. -/
theorem Reading.reliableAt (h : s.Reading s₁) (hs : s.Sound) (ho : s.Orderly) (hb : s.Live (.activation b))
    (hrel : s.ReliableAt b n) (hwalks : s.WalksAlong b n) : s₁.ReliableAt b n := by
  rcases h.adds with rfl | ⟨a, m, r, ha, hr, hrecounts⟩
  · exact hrel
  · exact hrecounts.reliableAt hr ha h.rereads hs ho h.sound hb hrel hwalks

/-- What one read preserves, any number of reads preserve. -/
theorem Reads.rereads (h : Reads s s₁) (hs : s.Sound) (ho : s.Orderly) :
    s₁.Sound ∧ s₁.Orderly ∧ s.Rereads s₁ := by
  induction h with
  | refl => exact ⟨hs, ho, .refl s⟩
  | tail _ hstep ih =>
      obtain ⟨hs₁, ho₁, hre⟩ := ih
      have hreading := hstep.reading hs₁ ho₁
      exact ⟨hreading.sound, hreading.orderly, hre.trans hreading.rereads⟩

/-- **Reads keep what is remembered reliable** from an activation whose walks end if others do. -/
theorem Reads.reliableAt (h : Reads s s₁) (hs : s.Sound) (ho : s.Orderly) (hb : s₁.Live (.activation b))
    (hrel : s.ReliableAt b n) (hwalks : s.WalksAlong b n) : s₁.ReliableAt b n := by
  induction h with
  | refl => exact hrel
  | @tail s₁ s₂ hreads hstep ih =>
      obtain ⟨hs₁, ho₁, hre⟩ := Reads.rereads hreads hs ho
      have hreading := hstep.reading hs₁ ho₁
      have hb₁ := hreading.rereads.back b hb
      exact hreading.reliableAt hs₁ ho₁ hb₁ (ih hb₁) (hre.walksAlong hs ho hs₁ ho₁ hb₁ hwalks)

/-- A read from an activation answers what the dynamic walk finds, if what is remembered is reliable. -/
theorem cachedRead_of_reliableAt (hs : s.Sound) (ho : s.Orderly) (hb : s.Live (.activation b)) (c : CacheId)
    (hrel : s.ReliableAt b (s.cache c).name) (hwalks : s.WalksAlong b (s.cache c).name) :
    ((cachedRead c b).run s).1 = s.lookupDynamic b (s.cache c).name := by
  have hkept : (s.remembered c (s.layoutOf b)).Agrees (s.lookupDynamic b (s.cache c).name) := by
    unfold Store.remembered
    split
    · rename_i l r hcached
      split
      · rename_i hl
        subst hl
        exact hrel.cached c r rfl hcached
      · trivial
    · trivial
  -- A site that remembers nothing resolves the name, and what resolving answers is remembered at the layout.
  have hresolved := (reading_resolve hs ho hb (s.cache c).name).reliableAt hs ho hb hrel hwalks
  have hmemo := (orderly_resolve hs ho hb (s.cache c).name).2
  obtain ⟨hre, hadds⟩ := recounts_resolve hs hb (s.cache c).name
  rw [cachedRead_run]
  split
  · rename_i v hr
    rw [hr] at hkept
    exact hkept.symm
  · rename_i hr
    rw [hr] at hkept
    exact hkept.symm
  · generalize (resolve b (s.cache c).name).run s = result at *
    rcases result with ⟨_ | r, s₁⟩
    · exact hre.scopes.lookupDynamic b _
    · have hscopes : s₁.SameScopes (s₁.modifyCache c fun cache =>
          { cache with cached := some (s.layoutOf b, r) }) := ⟨rfl, fun _ => rfl, fun _ => rfl, rfl⟩
      dsimp only at hmemo hresolved hre ⊢
      have hagrees := hresolved.memo r (hre.scopes.layoutOf b ▸ hmemo r rfl)
      rw [← hscopes.lookupDynamic] at hagrees
      exact (answer_of_agrees hagrees).trans ((hre.scopes.trans hscopes).lookupDynamic b _)

/-- Where nothing is remembered, nothing is wrong. -/
theorem reliableAt_of_forgotten (hmemos : s.layouts.all (·.memos.isEmpty) = true)
    (hcaches : s.caches.all (·.cached.isNone) = true) (b : ActivationId) (n : Name) : s.ReliableAt b n := by
  refine ⟨fun r hr => ?_, fun c r _ hr => ?_⟩
  · have hl := allocated_of_memo hr
    have hempty := Array.all_eq_true.1 hmemos _ hl
    rw [layout, Array.getElem?_eq_getElem hl, Option.getD_some, Layout.memo?,
      List.isEmpty_iff.1 hempty] at hr
    simp at hr
  · by_cases hc : c.index < s.caches.size
    · have hnone := Array.all_eq_true.1 hcaches _ hc
      rw [cache, Array.getElem?_eq_getElem hc, Option.getD_some, Option.isNone_iff_eq_none.1 hnone] at hr
      simp at hr
    · rw [cache, Array.getElem?_eq_none (Nat.not_lt.1 hc)] at hr
      simp [default, instInhabitedLookupCache.default] at hr

/-- **Results that activations of a layout share are right for those whose walks end.** In a store that a
    program can come to, whatever was moved in it, let what is remembered for a name be right for an
    activation, and let the walk from there end if it ends from any other activation of the layout. Then
    after reads of any names from any activations, in any order, what is remembered is still right for it:
    a read site and a resolved result say from there what the dynamic walk finds. -/
theorem shared_lookup_reliable (h : Reachable s) (hreads : Reads s s₁) (hb : s₁.Live (.activation b))
    (hrel : s.ReliableAt b n) (hwalks : s.WalksAlong b n) :
    s₁.lookupDynamic b n = s.lookupDynamic b n
    ∧ (∀ c, (s₁.cache c).name = n → ((cachedRead c b).run s₁).1 = s₁.lookupDynamic b n)
    ∧ ∀ r, ((resolve b n).run s₁).1 = some r →
      (((resolve b n).run s₁).2.readResult r).Agrees (s₁.lookupDynamic b n) := by
  have hs := h.sound
  have ho := h.orderly
  obtain ⟨hs₁, ho₁, hre⟩ := hreads.rereads hs ho
  have hrel₁ := hreads.reliableAt hs ho hb hrel hwalks
  have hwalks₁ := hre.walksAlong hs ho hs₁ ho₁ hb hwalks
  refine ⟨hre.scopes.lookupDynamic b n, ?_, fun r hr => ?_⟩
  · rintro c rfl
    exact cachedRead_of_reliableAt hs₁ ho₁ hb c hrel₁ hwalks₁
  · have hreading := reading_resolve hs₁ ho₁ hb n
    have hagrees := (hreading.reliableAt hs₁ ho₁ hb hrel₁ hwalks₁).memo r (by
      rw [hreading.rereads.scopes.layoutOf]
      exact (orderly_resolve hs₁ ho₁ hb n).2 r hr)
    rwa [hreading.rereads.scopes.lookupDynamic] at hagrees

/-- A scope is inserted around one of two activations of a function. The other is not nested as their layout
    any more, so reading from it leaves nothing behind that would be wrong for the first. -/
theorem reliable_of_shared :
    let ops : List Operation := [.newLayout "g" .singleton {}, .newScope ⟨0⟩ none 0,
      .define ⟨0⟩ ⟨2⟩ (.int 1), .newLayout "f" .function {}, .newScope ⟨1⟩ (some ⟨0⟩) 1,
      .newScope ⟨1⟩ (some ⟨0⟩) 1, .newLayout "s" .singleton {}, .newScope ⟨2⟩ none 0,
      .define ⟨3⟩ ⟨2⟩ (.int 2), .newCache ⟨2⟩, .attach ⟨1⟩ ⟨3⟩]
    let s := ops.foldl Operation.perform (.new ["x"])
    let s₁ := ((cachedRead ⟨0⟩ ⟨2⟩).run s).2
    Reachable s ∧ s.layoutOf ⟨1⟩ = s.layoutOf ⟨2⟩ ∧ s.lookupDynamic ⟨2⟩ ⟨2⟩ = some (.int 1)
      ∧ ((cachedRead ⟨0⟩ ⟨1⟩).run s₁).1 = some (.int 2) := by
  intro ops s s₁
  have hreach : Reachable s := ⟨["x"], .of_allHeld (by decide +kernel)⟩
  have hreads : Reads s s₁ := .single (.cachedRead ⟨0⟩ ⟨2⟩ (live_of_mem_roots (by decide +kernel)))
  have hlive : s₁.Live (.activation ⟨1⟩) := live_of_mem_roots (by decide +kernel)
  have hends : (s.walk ⟨2⟩ s.chainBound ⟨1⟩).isSome = true := by decide +kernel
  have hread := (shared_lookup_reliable hreach hreads hlive
    (reliableAt_of_forgotten (by decide +kernel) (by decide +kernel) ⟨1⟩ ⟨2⟩) fun _ _ _ _ => hends).2.1 ⟨0⟩
    (by decide +kernel)
  exact ⟨hreach, by decide +kernel, by decide +kernel, hread.trans (by decide +kernel)⟩

/-- A scope is inserted around one of two activations of a function. What is found from the first is then
    answered to the second, which is not nested in that scope. -/
theorem sharing_leaves_stale : ¬ ∀ s a b c, Reachable s → (∀ d n, s.ReliableAt d n) →
    s.Live (.activation a) → s.Live (.activation b) → s.layoutOf a = s.layoutOf b →
    ((cachedRead c b).run ((cachedRead c a).run s).2).1
      = ((cachedRead c a).run s).2.lookupDynamic b (s.cache c).name := by
  intro h
  have hreach : Reachable ([.newLayout "g" .singleton {}, .newScope ⟨0⟩ none 0, .define ⟨0⟩ ⟨2⟩ (.int 1),
      .newLayout "f" .function {}, .newScope ⟨1⟩ (some ⟨0⟩) 1, .newScope ⟨1⟩ (some ⟨0⟩) 1,
      .newLayout "s" .singleton {}, .newScope ⟨2⟩ none 0, .define ⟨3⟩ ⟨2⟩ (.int 2), .newCache ⟨2⟩,
      .attach ⟨1⟩ ⟨3⟩].foldl Operation.perform (.new ["x"])) := ⟨["x"], .of_allHeld (by decide +kernel)⟩
  have hsame := h _ ⟨1⟩ ⟨2⟩ ⟨0⟩ hreach
    (reliableAt_of_forgotten (by decide +kernel) (by decide +kernel)) (live_of_mem_roots (by decide +kernel))
    (live_of_mem_roots (by decide +kernel)) (by decide +kernel)
  revert hsame
  decide +kernel

end Store

end ScopeCall
