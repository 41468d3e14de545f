import ScopeCall.Proofs.Rewiring

/-!
# `ScopeCall.Proofs.Nesting` — new layouts, links and activations

A lookup follows the activations, and what it leaves behind is kept along the layouts. The two ways
agree as long as a layout is linked before it is first used, and stays linked as it is. A layout that is
claimed anew names another activation, so all that went through it is forgotten.

## Contents
- **What is not concerned.** `Remembers.same`: changes of other objects.
- **Layouts and read sites.** New ones have no part in any trace.
- **Links.** `Remembers.linked`: nothing was recorded at a layout that is linked for the first time.
- **Activations.** `remembers_enter` and `remembers_newScope`.
-/

namespace ScopeCall

namespace Store

variable {s s₁ s₂ : Store} {alive : LayoutId → Prop} {pending pending' : LayoutId → Name → Prop}

/-! ## What is not concerned -/

/-- Changes of other objects than those that lookups depend on. -/
theorem Remembers.same (h : s.Remembers alive pending) (hs : s.WellFormed)
    (hlayouts : s₁.layouts = s.layouts) (hactivations : s₁.activations = s.activations)
    (hstables : s₁.stables = s.stables) (hlookups : s₁.lookups = s.lookups)
    (hcaches : s₁.caches = s.caches) : s₁.Remembers alive pending := by
  have hact : ∀ a, s₁.activation a = s.activation a := fun a => by
    rw [activation, hactivations, ← activation]
  have hquiet : s.Quiet s₁ := {
    allocated a := by simp only [Allocated, hactivations]
    grows k hk := by simpa only [Allocated, hlayouts] using hk
    layoutOf a := by rw [layoutOf, hact, ← layoutOf]
    enclosing a := by rw [hact]
    bare k := by rw [layout, hlayouts, ← layout]
    lookups := hlookups
    caches := hcaches }
  exact h.quiet_same hs hquiet hlayouts hstables

theorem Remembers.aside (h : s.Remembers alive pending) (hs : s.WellFormed) (ha : s.Aside s₁)
    (hlookups : s₁.lookups = s.lookups) : s₁.Remembers alive pending :=
  h.same hs ha.layouts ha.activations ha.stables hlookups ha.caches

theorem Remembers.acquire (h : s.Remembers alive pending) (hs : s.WellFormed) (rs : List Ref) :
    (s.acquire rs).Remembers alive pending :=
  h.same hs rfl rfl rfl rfl rfl

/-! ## Layouts and read sites -/

section AddLayout

variable {x : Layout}

theorem addLayout_of_allocated {k : LayoutId} (hk : s.Allocated (.layout k)) (x : Layout) :
    (s.addLayout x).layout k = s.layout k :=
  (s.layout_addLayout x k).trans (if_neg (Nat.ne_of_lt hk))

/-- A part that a new layout has in common with an empty one reads as before in every layout. -/
theorem addLayout_part {α : Type} (part : Layout → α) (hpart : part x = part default) (k : LayoutId) :
    part ((s.addLayout x).layout k) = part (s.layout k) := by
  rw [layout_addLayout]
  split
  · rename_i hk
    have hempty : s.layout k = default := by simp [layout, Array.getElem?_eq_none hk.ge]
    rw [hempty, hpart]
  · rfl

/-- A new layout is not linked, and has not been walked through. -/
theorem Nested.addLayout (h : s.Nested) (hs : s.WellFormed) (henclosing : x.enclosing = none)
    (hrecorded : x.recorded = []) (hchildren : x.children = []) (hsingleton : x.singleton = none) :
    (s.addLayout x).Nested where
  along a ha := by
    have hl := addLayout_of_allocated (layout_allocated hs ha.allocated) x
    have hcurrent : s.Current a := by
      refine ⟨ha.allocated, ?_⟩
      rw [← hl]
      exact ha.named
    rw [addLayout_part Layout.enclosing henclosing]
    exact h.along a hcurrent
  acyclic := h.acyclic
  registered l p hp := by
    rw [addLayout_part Layout.enclosing henclosing] at hp
    rw [addLayout_part Layout.children hchildren]
    exact h.registered l p hp
  walked l n hn := by
    rw [addLayout_part Layout.recorded hrecorded] at hn
    obtain ⟨a, ha, hl⟩ := h.walked l n hn
    refine ⟨a, ⟨ha.allocated, ?_⟩, hl⟩
    have hnamed := ha.named
    rwa [← addLayout_of_allocated (layout_allocated hs ha.allocated) x] at hnamed
  claimed l a ha := by
    rw [layout_addLayout] at ha ⊢
    split at ha
    · simp [hsingleton] at ha
    · rename_i hk
      rw [if_neg hk]
      exact h.claimed l a ha

/-- A new layout reads as an empty one did before it was there, as far as lookups are concerned. -/
theorem Remembers.addLayout (h : s.Remembers alive pending) (hs : s.WellFormed)
    (henclosing : x.enclosing = none) (hrecorded : x.recorded = []) (hmemos : x.memos = [])
    (hchildren : x.children = []) (hsingleton : x.singleton = none) :
    (s.addLayout x).Remembers alive pending := by
  have hlink : ∀ k, ((s.addLayout x).layout k).enclosing = (s.layout k).enclosing :=
    addLayout_part Layout.enclosing henclosing
  have hcarries : s.Carries (s.addLayout x) := {
    layouts k hk := by
      simp only [Allocated, Store.addLayout, Array.size_push] at hk ⊢
      omega
    recorded k n hn := by
      rw [addLayout_part Layout.recorded hrecorded]
      exact hn
    memo k n := by
      have hmemo : x.memo? n = (default : Layout).memo? n := by
        rw [Layout.memo?, hmemos]
        rfl
      exact addLayout_part (Layout.memo? · n) hmemo k
    enclosing k _ _ := hlink k
    size := Nat.le_refl _
    valid _ _ := id
    cache _ _ := rfl }
  refine ⟨h.carry hs (h.toNested.addLayout hs henclosing hrecorded hchildren hsingleton) hcarries
    (fun _ _ => id) (fun _ _ => id) fun k m hm => Or.inl ?_, fun l p hl hp => h.upward l p hl (hlink l ▸ hp)⟩
  unfold view token slot?
  rw [addLayout_of_allocated (allocated_of_recorded hm)]
  rfl

end AddLayout

theorem remembers_newLayout (h : s.Remembers alive pending) (hs : s.WellFormed) (label : String)
    (kind : LayoutKind) (policy : BindingPolicy) :
    ((newLayout label kind policy).run s).2.Remembers alive pending := by
  rw [newLayout_run]
  have haside := (aside_addGuard s (label ++ " has no active bindings")).trans
    (aside_addGuard _ (label ++ " enclosing"))
  have hs₁ := ((Leads.refl s).aside haside).wellFormed hs
  exact (h.aside hs haside rfl).addLayout hs₁ rfl rfl rfl rfl rfl

/-- A new read site has no result yet. -/
theorem remembers_newCache (h : s.Remembers alive pending) (hs : s.WellFormed) (n : Name) :
    ((newCache n).run s).2.Remembers alive pending := by
  have hcache : ∀ c, (s.addCache n).cache c
      = if c.index = s.caches.size then { name := n } else s.cache c := fun c =>
    Array.getD_push s.caches _ c.index
  show (s.addCache n).Remembers alive pending
  have hnested : (s.addCache n).Nested := h.toNested.same ⟨fun _ => Iff.rfl, fun _ => rfl, fun _ => rfl,
    fun _ => rfl, fun _ => rfl, fun _ => rfl, fun _ => rfl⟩ fun _ _ => Or.inl
  refine ⟨h.carry hs hnested ⟨fun _ hk => hk, fun _ _ hn => hn, fun _ _ => rfl, fun _ _ _ => rfl,
    Nat.le_refl _, fun _ _ => id, fun c hc => ?_⟩ (fun _ _ => id) (fun _ _ => id)
    fun k m _ => Or.inl rfl, h.upward⟩
  rw [hcache] at hc ⊢
  split at hc
  · exact absurd rfl hc
  · rename_i hne
    rw [if_neg hne]

/-! ## Links -/

/-- The store after a layout has been linked to its first parent. -/
def linked (s : Store) (l p : LayoutId) : Store := (s.relinked l (some p)).addChild p l

section Linked

variable {l p : LayoutId}

theorem rewires_linked (s : Store) (l p : LayoutId) : s.Rewires (s.linked l p) :=
  (rewires_relinked s l (some p)).trans (rewires_addChild _ p l)

theorem Spares.linked (h : s.Spares s₁) (hl : s.Allocated (.layout l)) (hp : s.Allocated (.layout p)) :
    s.Spares (s₁.linked l p) :=
  (h.relinked l (some p) (by rintro q ⟨rfl⟩; exact hp)).addChild p hl

theorem enclosing_linked (hl : s.Allocated (.layout l)) (k : LayoutId) :
    ((s.linked l p).layout k).enclosing = if k = l then some p else (s.layout k).enclosing := by
  unfold linked
  rw [enclosing_addChild, enclosing_relinked hl]

/-- The new link is registered, and those that were registered still are. -/
theorem mem_children_linked (hp : s.Allocated (.layout p)) {k c : LayoutId}
    (hc : c ∈ (s.layout k).children ∨ k = p ∧ c = l) :
    c ∈ ((s.linked l p).layout k).children := by
  unfold linked
  rw [mem_children_addChild (((rewires_relinked s l (some p)).allocated_layout p).2 hp),
    children_relinked]
  exact hc

/-- **The first link of a layout breaks no trace**: it had no activation, so nothing was recorded. -/
theorem Remembers.linked (h : s.Remembers alive pending) (hs : s.WellFormed)
    (hl : s.Allocated (.layout l)) (hp : s.Allocated (.layout p)) (hup : alive l → alive p)
    (hunused : ∀ a, s.Allocated (.activation a) → s.layoutOf a ≠ l) :
    (s.linked l p).Remembers alive pending := by
  have hw := rewires_linked s l p
  have hlink := enclosing_linked (p := p) hl
  have hnested : (s.linked l p).Nested := by
    refine h.toNested.rewired hw (fun b hb => ?_) h.acyclic fun k q hq => mem_children_linked hp ?_
    · rw [hlink, if_neg (hunused b hb.allocated)]
      exact h.along b hb
    · rw [hlink] at hq
      split at hq
      · rename_i hk
        exact Or.inr ⟨(Option.some.inj hq).symm, hk⟩
      · exact Or.inl (h.registered k q hq)
  refine ⟨h.toRetraces.rewired hs hw hnested fun k n hn => ?_, fun k q hk hq => ?_⟩
  · obtain ⟨a, ha, hk⟩ := h.walked k n hn
    exact (hlink k).trans (if_neg (hk ▸ hunused a ha.allocated))
  · rw [hlink] at hq
    split at hq
    · rename_i hkl
      obtain rfl := Option.some.inj hq
      exact hup (hkl ▸ hk)
    · exact h.upward k q hk hq

end Linked

/-! ## Activations -/

section Entering

variable {l : LayoutId} {enclosing : Option ActivationId}

/-- What encloses an activation exists. -/
theorem WellFormed.activation_enclosing (hs : s.WellFormed) {a e : ActivationId}
    (ha : s.Allocated (.activation a)) (he : (s.activation a).enclosing = some e) :
    s.Allocated (.activation e) := by
  refine hs.refs (.activation a) _ ?_
  rw [refs_activation ha]
  simp [Activation.refs, he]

/-- Scopes that exist are nested in each other as before if their links have stayed. -/
theorem inside_of_inside
    (hsame : ∀ b, s.Allocated (.activation b) →
      (s₁.activation b).enclosing = (s.activation b).enclosing)
    (hlink : ∀ b e, (s₁.activation b).enclosing = some e → s.Allocated (.activation e))
    {b a : ActivationId} (hb : s.Allocated (.activation b)) (h : s₁.Inside b a) : s.Inside b a := by
  induction h with
  | single hbe => exact .single ((hsame b hb).symm.trans hbe)
  | @tail c d hbc hcd ih =>
      obtain ⟨e, -, hec⟩ := Relation.TransGen.tail'_iff.1 hbc
      exact ih.tail ((hsame c (hlink e c hec)).symm.trans hcd)

/-- Scopes that are new are nested in others, and no other in them, so they close no circle. -/
theorem acyclic_of_extended
    (hsame : ∀ b, s.Allocated (.activation b) →
      (s₁.activation b).enclosing = (s.activation b).enclosing)
    (hlink : ∀ b e, (s₁.activation b).enclosing = some e → s.Allocated (.activation e))
    (hacyclic : ∀ b, ¬ s.Inside b b) (b : ActivationId) : ¬ s₁.Inside b b := by
  intro hcircle
  obtain ⟨c, -, hcb⟩ := Relation.TransGen.tail'_iff.1 hcircle
  exact hacyclic b (inside_of_inside hsame hlink (hlink c b hcb) hcircle)

/-- A new activation, nested along its layout. -/
theorem Remembers.joined (h : s.Remembers alive pending) (hs : s.WellFormed) (depth : Nat)
    (halong : (s.layout l).enclosing = enclosing.map s.layoutOf)
    (he : ∀ e, enclosing = some e → s.Allocated (.activation e)) :
    (s.joined l enclosing depth).Remembers alive pending := by
  have hact : ∀ b, (s.joined l enclosing depth).activation b
      = if b.index = s.activations.size then s.entrant l enclosing depth else s.activation b :=
    activation_joined
  have hold : ∀ {b}, s.Allocated (.activation b) →
      (s.joined l enclosing depth).layoutOf b = s.layoutOf b := fun hb => by
    rw [layoutOf, hact, if_neg (Nat.ne_of_lt hb), ← layoutOf]
  have hgrows : ∀ {b}, s.Allocated (.activation b) →
      (s.joined l enclosing depth).Allocated (.activation b) := fun {b} hb => by
    have hb : b.index < s.activations.size := hb
    show b.index < (s.activations.push _).size
    rw [Array.size_push]
    omega
  refine ⟨h.carry hs ⟨fun a ha => ?_, ?_, h.registered, fun k n hn => ?_, h.claimed⟩
    ⟨fun _ hk => hk, fun _ _ hn => hn, fun _ _ => rfl, fun _ _ _ => rfl, Nat.le_refl _,
      fun _ _ => id, fun _ _ => rfl⟩ (fun _ _ => id) (fun _ _ => id) fun _ _ _ => Or.inl rfl, h.upward⟩
  · by_cases hnew : a.index = s.activations.size
    · rw [layoutOf, hact, if_pos hnew]
      refine halong.trans (Option.map_congr fun e hin => ?_)
      exact (hold (he e hin)).symm
    · have haold := allocated_joined ha.allocated hnew
      have hcurrent : s.Current a := by
        refine ⟨haold, ?_⟩
        rw [← hold haold]
        exact ha.named
      rw [hold haold, hact, if_neg hnew]
      refine (h.along a hcurrent).trans (Option.map_congr fun e hin => (hold ?_).symm)
      exact hs.activation_enclosing haold hin
  · have hlink : ∀ b e, ((s.joined l enclosing depth).activation b).enclosing = some e →
        s.Allocated (.activation e) := fun b e hbe => by
      by_cases hb : (s.joined l enclosing depth).Allocated (.activation b)
      · rw [hact] at hbe
        split at hbe
        · exact he e hbe
        · rename_i hnew
          exact hs.activation_enclosing (allocated_joined hb hnew) hbe
      · rw [activation, Array.getElem?_eq_none (Nat.not_lt.1 hb)] at hbe
        exact absurd hbe (by simp [instInhabitedActivation.default, default])
    refine acyclic_of_extended (fun b hb => ?_) hlink h.acyclic
    rw [hact, if_neg (Nat.ne_of_lt hb)]
  · obtain ⟨a, ha, hk⟩ := h.walked k n hn
    refine ⟨a, ⟨hgrows ha.allocated, ?_⟩, (hold ha.allocated).trans hk⟩
    rw [hold ha.allocated]
    exact ha.named

section Claim

variable {a : ActivationId}

theorem claim_part {α : Type} (part : Layout → α) (hpart : ∀ x : Layout, part (x.claim a) = part x)
    (l k : LayoutId) : part ((s.modifyLayout l (·.claim a)).layout k) = part (s.layout k) :=
  layout_modifyLayout_congr s part l k _ (hpart _)

/-- An activation along the link of its layout may become the one that the layout names. -/
theorem Nested.claim (h : s.Nested) (hs : s.WellFormed) (ha : s.Allocated (.activation a))
    (hal : s.layoutOf a = l) (hk : (s.layout l).kind.isSingleton = true)
    (halong : (s.layout l).enclosing = (s.activation a).enclosing.map s.layoutOf) :
    (s.modifyLayout l (·.claim a)).Nested := by
  have henclosing : ∀ k, ((s.modifyLayout l (·.claim a)).layout k).enclosing = (s.layout k).enclosing :=
    claim_part Layout.enclosing (fun _ => rfl) l
  have hkind : ∀ k, ((s.modifyLayout l (·.claim a)).layout k).kind = (s.layout k).kind :=
    claim_part Layout.kind (fun _ => rfl) l
  have hlayoutOf : ∀ b, (s.modifyLayout l (·.claim a)).layoutOf b = s.layoutOf b := fun _ => rfl
  constructor
  case acyclic => exact h.acyclic
  case along =>
    intro b hb
    rw [henclosing]
    show (s.layout (s.layoutOf b)).enclosing = _
    by_cases hbl : s.layoutOf b = l
    · have hl : s.Allocated (.layout l) := hbl ▸ layout_allocated hs hb.allocated
      have hb := hb.named
      rw [hlayoutOf, hkind, hbl, layout_modifyLayout_self s _ hl] at hb
      obtain rfl := Option.some.inj (hb hk)
      rw [hbl]
      exact halong
    · refine h.along b ⟨hb.allocated, ?_⟩
      have hb := hb.named
      rwa [hlayoutOf, layout_modifyLayout_of_ne _ _ hbl] at hb
  case registered =>
    intro k p hp
    rw [henclosing] at hp
    rw [claim_part Layout.children fun _ => rfl]
    exact h.registered k p hp
  case walked =>
    intro k n hn
    rw [claim_part Layout.recorded fun _ => rfl] at hn
    obtain ⟨b, hb, hbk⟩ := h.walked k n hn
    by_cases hkl : k = l
    · -- The activation that the layout names now takes the place of the one that it named.
      subst hkl
      have hl := hal ▸ layout_allocated hs ha
      refine ⟨a, ⟨ha, fun _ => ?_⟩, hal⟩
      rw [hlayoutOf, hal, layout_modifyLayout_self s _ hl]
      rfl
    · refine ⟨b, ⟨hb.allocated, ?_⟩, hbk⟩
      have hbl : s.layoutOf b ≠ l := hbk ▸ hkl
      rw [hlayoutOf, layout_modifyLayout_of_ne _ _ hbl]
      exact hb.named
  case claimed =>
    intro k b hb
    rw [hkind]
    by_cases hkl : k = l
    · rw [hkl]
      exact hk
    · rw [layout_modifyLayout_of_ne _ _ hkl] at hb
      exact h.claimed k b hb

/-- Where a layout named no activation, a slot that is not tracked ended no walk. -/
theorem view_claim (hnone : (s.layout l).singleton = none) (m : Name) :
    (s.modifyLayout l (·.claim a)).view l m = s.view l m ∨ s.view l m = .giveUp := by
  have hslots : ((s.modifyLayout l (·.claim a)).layout l).slots = (s.layout l).slots :=
    claim_part Layout.slots (fun _ => rfl) l l
  have hindex : ((s.modifyLayout l (·.claim a)).layout l).slotIndex? m = (s.layout l).slotIndex? m := by
    rw [Layout.slotIndex?, hslots, ← Layout.slotIndex?]
  have htoken : ∀ j, (s.modifyLayout l (·.claim a)).token l j = s.token l j := fun j => by
    rw [token, slot?, hslots, ← slot?, ← token]
  unfold view
  rw [hindex, hnone]
  cases hj : (s.layout l).slotIndex? m with
  | none => exact Or.inl rfl
  | some j =>
      dsimp only
      rw [htoken]
      cases s.token l j with
      | none => exact Or.inr rfl
      | some t => exact Or.inl rfl

/-- A layout may name another activation if it named none, or if everything that goes through it is
    pending. -/
theorem Remembers.claim (h : s.Remembers alive pending) (hs : s.WellFormed)
    (ha : s.Allocated (.activation a)) (hal : s.layoutOf a = l) (hk : (s.layout l).kind.isSingleton = true)
    (halong : (s.layout l).enclosing = (s.activation a).enclosing.map s.layoutOf)
    (hpending : ∀ k m, pending k m → pending' k m)
    (hfree : (s.layout l).singleton = none ∨ ∀ m, pending' l m) :
    (s.modifyLayout l (·.claim a)).Remembers alive pending' := by
  have henclosing : ∀ k, ((s.modifyLayout l (·.claim a)).layout k).enclosing = (s.layout k).enclosing :=
    claim_part Layout.enclosing (fun _ => rfl) l
  have hcarries : s.Carries (s.modifyLayout l (·.claim a)) := {
    layouts k hk := (Leads.allocated_modifyLayout _ _ _ _).2 hk
    recorded k n hn := by
      rw [claim_part Layout.recorded fun _ => rfl]
      exact hn
    memo k n := claim_part (Layout.memo? · n) (fun _ => rfl) l k
    enclosing k _ _ := henclosing k
    size := Nat.le_refl _
    valid _ _ := id
    cache _ _ := rfl }
  refine ⟨h.carry hs (h.toNested.claim hs ha hal hk halong) hcarries (fun _ _ => id) hpending
    fun k m _ => ?_, fun k p hkp hp => h.upward k p hkp (henclosing k ▸ hp)⟩
  by_cases hkl : k = l
  · subst hkl
    rcases hfree with hnone | hall
    · exact (view_claim hnone m).imp_right fun hgive => Or.inr (Or.inl hgive)
    · exact Or.inr (Or.inl (hall m))
  · refine Or.inl ?_
    unfold view token slot?
    rw [layout_modifyLayout_of_ne _ _ hkl]
    rfl

end Claim

/-- Entering a layout changes no link, and moves no activation. -/
theorem stays_enter (hs : s.Sound) (hl : Ref.layout l ∈ s.roots)
    (he : ∀ b, enclosing = some b → Ref.activation b ∈ s.roots) (depth : Nat) :
    (∀ k, (((enter l enclosing depth).run.run s).2.layout k).enclosing = (s.layout k).enclosing)
      ∧ ∀ b, s.Allocated (.activation b) →
        ((enter l enclosing depth).run.run s).2.layoutOf b = s.layoutOf b := by
  have hjoined : ∀ {s' : Store}, s'.activations = (s.joined l enclosing depth).activations →
      ∀ b, s.Allocated (.activation b) → s'.layoutOf b = s.layoutOf b := fun hact b hb => by
    rw [layoutOf, activation, hact, ← activation, activation_joined, if_neg (Nat.ne_of_lt hb),
      ← layoutOf]
  have hclaimed : ∀ k, ((s.claimed l enclosing depth).layout k).enclosing = (s.layout k).enclosing :=
    fun k => layout_modifyLayout_congr _ Layout.enclosing l k _ rfl
  rw [enter_run]
  by_cases hk : (s.layout l).kind.isSingleton = true
  · rw [if_pos hk]
    split
    · exact ⟨fun _ => rfl, fun _ _ => rfl⟩
    · rename_i hfree
      dsimp only
      split
      · obtain ⟨-, htouch, -⟩ := advances_reclaimed depth hs (live_of_mem_roots hl)
          (fun b hb => live_of_mem_roots (he b hb)) fun b => hs.layoutOf_ne hk hfree
        have hswept := (s.reclaimed l enclosing depth).swept_invalidateAll l
        refine ⟨fun k => ?_, hjoined ?_⟩
        · rw [(hswept.layout k).eq]
          exact (congrArg Layout.enclosing (htouch.layout k) : _).trans (hclaimed k)
        · rw [hswept.eq]
          exact htouch.activations
      · exact ⟨hclaimed, hjoined rfl⟩
  · rw [if_neg hk]
    exact ⟨fun _ => rfl, hjoined rfl⟩

/-- **A layout that is claimed anew forgets what went through it.** -/
theorem remembers_enter (h : s.Remembers alive fun _ _ => False) (hs : s.Sound)
    (hl : Ref.layout l ∈ s.roots) (he : ∀ b, enclosing = some b → Ref.activation b ∈ s.roots)
    (depth : Nat) (halong : (s.layout l).enclosing = enclosing.map s.layoutOf)
    (hlasting : ((enter l enclosing depth).run.run s).2.Lasting alive) :
    ((enter l enclosing depth).run.run s).2.Remembers alive fun _ _ => False := by
  have hlive := live_of_mem_roots hl
  have helive := fun b hb => live_of_mem_roots (he b hb)
  have hwf := hs.wellFormed
  have hjoined := h.joined hwf depth halong fun b hb => (helive b hb).allocated hwf
  have hjwf := (onward_joined depth hlive helive).leads.wellFormed hwf
  have hcwf := (onward_claimed depth hlive helive).leads.wellFormed hwf
  have hentrant : ((s.joined l enclosing depth).layout l).enclosing
      = ((s.joined l enclosing depth).activation ⟨s.activations.size⟩).enclosing.map
        (s.joined l enclosing depth).layoutOf := by
    rw [activation_joined, if_pos rfl]
    refine halong.trans (Option.map_congr fun e hin => ?_)
    rw [layoutOf, layoutOf, activation_joined, if_neg (Nat.ne_of_lt ((helive e hin).allocated hwf))]
  have hnew : (s.joined l enclosing depth).Allocated (.activation ⟨s.activations.size⟩) := by
    simp [Allocated, Store.joined, takeSerial, addActivation]
  have hlayout : (s.joined l enclosing depth).layoutOf ⟨s.activations.size⟩ = l := by
    rw [layoutOf, activation_joined, if_pos rfl]
    rfl
  rw [enter_run] at hlasting ⊢
  by_cases hk : (s.layout l).kind.isSingleton = true
  · rw [if_pos hk] at hlasting ⊢
    split at hlasting
    · rename_i htaken
      rw [if_pos htaken]
      exact h.same hwf rfl rfl rfl rfl rfl
    · rename_i hfree
      rw [if_neg hfree]
      dsimp only at hlasting ⊢
      by_cases hfirst : (s.layout l).singleton.isSome = true
      · rw [if_pos hfirst] at hlasting ⊢
        obtain ⟨hadv, htouch, -⟩ := advances_reclaimed depth hs hlive helive fun b =>
          hs.layoutOf_ne hk hfree
        have hclaimed : (s.claimed l enclosing depth).Remembers alive fun k _ => k = l :=
          hjoined.claim hjwf hnew hlayout hk hentrant (fun _ _ => False.elim) (Or.inr fun _ => rfl)
        have hreclaimed : (s.reclaimed l enclosing depth).Remembers alive fun k _ => k = l :=
          hclaimed.touches hcwf htouch
            (fun k hk => hadv.leads.grows _ ((Leads.allocated_modifyLayout _ _ _ _).1 hk))
            (fun u hu hv => ?_) (fun _ _ => id) fun _ => rfl
        · exact hreclaimed.invalidateAll (hadv.leads.wellFormed hwf)
            (hadv.leads.grows _ (hlive.allocated hwf)) (fun _ _ => id) hlasting
        · by_contra hf
          have hf : s.stableValid u = false := Bool.eq_false_iff.2 hf
          rw [hadv.later.fallen u hu hf] at hv
          exact absurd hv Bool.false_ne_true
      · rw [if_neg hfirst]
        have hnone : (s.layout l).singleton = none := by simpa using hfirst
        exact hjoined.claim hjwf hnew hlayout hk hentrant (fun _ _ => id) (Or.inl hnone)
  · rw [if_neg hk]
    exact hjoined

/-- Links that were made have stayed, and so have those of layouts that had an activation. -/
def Settles (s s' : Store) : Prop :=
  ∀ l, (s.layout l).enclosing ≠ none ∨ (∃ a, s.Allocated (.activation a) ∧ s.layoutOf a = l) →
    (s'.layout l).enclosing = (s.layout l).enclosing

/-- Linking a layout changes something only when it is linked for the first time. -/
theorem remembers_initializeEnclosing (h : s.Remembers alive fun _ _ => False) (hs : s.Sound)
    {parent : Option LayoutId} (hl : Ref.layout l ∈ s.roots)
    (hp : ∀ p, parent = some p → Ref.layout p ∈ s.roots)
    (hsettles : s.Settles ((initializeEnclosing l parent).run.run s).2)
    (hkept : ∀ k, ((initializeEnclosing l parent).run.run s).2.Live (.layout k) → alive k) :
    ((initializeEnclosing l parent).run.run s).2.Remembers alive fun _ _ => False := by
  have hwf := hs.wellFormed
  have hspares := spares_initializeEnclosing (hwf.roots _ hl) fun p hpp => hwf.roots _ (hp p hpp)
  rw [initializeEnclosing_run] at hsettles hkept hspares ⊢
  cases hparent : s.parent l with
  | some q =>
      simp only
      split <;> exact h
  | none =>
      cases parent with
      | none => exact h
      | some p =>
          simp only [hparent] at hsettles hkept hspares
          have hl' := hwf.roots _ hl
          refine h.linked hwf hl' (hwf.roots _ (hp p rfl))
            (fun _ => hkept p (live_of_mem_roots (hspares.held ▸ hp p rfl))) fun a ha hal => ?_
          -- Had it an activation, the link would be the one that it had, to a parent alive.
          have hsame := hsettles l (Or.inr ⟨a, ha, hal⟩)
          have henclosing : (s.layout l).enclosing = some p :=
            hsame.symm.trans ((enclosing_linked hl' l).trans (if_pos rfl))
          have hlive := (isLive_iff hwf (hwf.roots _ (hp p rfl))).2 (live_of_mem_roots (hp p rfl))
          rw [parent, henclosing, Option.bind_some, upgradeLayout, if_pos hlive] at hparent
          exact absurd hparent (Option.some_ne_none p)

/-- A layout is entered as it is, or it is refused, or it has no parent alive and is linked first. -/
theorem newScope_cases (s : Store) (l : LayoutId) (enclosing : Option ActivationId) (depth : Nat) :
    (newScope l enclosing depth).run.run s = (enter l enclosing depth).run.run s
      ∨ (∃ e, (newScope l enclosing depth).run.run s = (.error e, s))
      ∨ ∃ b, enclosing = some b ∧ s.parent l = none
        ∧ (newScope l enclosing depth).run.run s
          = (enter l enclosing depth).run.run (s.linked l (s.layoutOf b)) := by
  rw [newScope_run, initializeEnclosing_run]
  split
  · exact Or.inl rfl
  · cases hparent : s.parent l with
    | some q =>
        dsimp only
        by_cases hsame : some q = enclosing.map s.layoutOf
        · rw [if_pos hsame]
          exact Or.inl rfl
        · rw [if_neg hsame]
          exact Or.inr (Or.inl ⟨_, rfl⟩)
    | none =>
        cases enclosing with
        | none => exact Or.inl rfl
        | some b => exact Or.inr (Or.inr ⟨b, rfl, rfl, rfl⟩)

/-- Making an activation, if it links its layout at all, links it for the first time. -/
theorem remembers_newScope (h : s.Remembers alive fun _ _ => False) (hs : s.Sound)
    (hl : Ref.layout l ∈ s.roots) (he : ∀ b, enclosing = some b → Ref.activation b ∈ s.roots)
    (depth : Nat) (hsettles : s.Settles ((newScope l enclosing depth).run.run s).2)
    (hkept : ∀ k, ((newScope l enclosing depth).run.run s).2.Live (.layout k) → alive k)
    (hlasting : ((newScope l enclosing depth).run.run s).2.Lasting alive) :
    ((newScope l enclosing depth).run.run s).2.Remembers alive fun _ _ => False := by
  have hadv := (advances_newScope hs hl he depth).1
  have hwf := hs.wellFormed
  have hl' := hwf.roots _ hl
  have halive : alive l := hkept l (hadv.live hl)
  rw [newScope_run] at hsettles hkept hlasting hadv ⊢
  split
  · rename_i halong
    rw [if_pos halong] at hlasting
    exact remembers_enter h hs hl he depth (by simpa [isEnclosedBy] using halong) hlasting
  · rename_i hnot
    rw [if_neg hnot] at hsettles hkept hlasting hadv
    have hnot : (s.layout l).enclosing ≠ enclosing.map s.layoutOf := by
      simpa [isEnclosedBy] using hnot
    rw [initializeEnclosing_run] at hsettles hkept hlasting hadv ⊢
    cases hparent : s.parent l with
    | none =>
        cases hpe : enclosing.map s.layoutOf with
        | none =>
            -- The parent that the layout is linked to has died, but it outlives the layout.
            obtain ⟨q, hq⟩ := Option.ne_none_iff_exists'.1 (hpe ▸ hnot)
            have hqa : s.Allocated (.layout q) := hwf.enclosing hq
            have hqlive := (hlasting.before hadv.leads) q (h.upward l q halive hq) hqa
            rw [parent, hq, Option.bind_some, upgradeLayout,
              if_pos ((isLive_iff hwf hqa).2 hqlive)] at hparent
            exact absurd hparent (Option.some_ne_none q)
        | some p =>
            obtain ⟨e, rfl, rfl⟩ := Option.map_eq_some_iff.1 hpe
            simp only [hparent, hpe] at hsettles hkept hlasting hadv ⊢
            have hp := hwf.layoutOf (he e rfl)
            have hlink := (@spares_initializeEnclosing s l (some (s.layoutOf e)) hl'
              (by rintro p ⟨rfl⟩; exact hp)).advances hs
            rw [initializeEnclosing_run, hparent] at hlink
            have hs₁ := hlink.sound hs
            have henclosing : ((s.linked l (s.layoutOf e)).layout l).enclosing
                = some (s.layoutOf e) := (enclosing_linked hl' l).trans (if_pos rfl)
            obtain ⟨hlinks, hlayoutOf⟩ := stays_enter hs₁ (hlink.mem_roots hl)
              (hlink.mem_roots_activation he) depth
            refine remembers_enter (h.linked hwf hl' hp (fun _ => hkept _ ?_) fun a ha hal => ?_) hs₁
              (hlink.mem_roots hl) (hlink.mem_roots_activation he) depth henclosing hlasting
            · have hlive := (hadv.live (he e rfl)).layoutOf (hadv.leads.wellFormed hwf)
              rwa [show _ = s.layoutOf e from
                hlayoutOf e ((live_of_mem_roots (he e rfl)).allocated hwf)] at hlive
            · have hsame := hsettles l (Or.inr ⟨a, ha, hal⟩)
              exact hnot (hsame.symm.trans ((hlinks l).trans henclosing))
    | some q =>
        have hq := parent_eq_some hparent
        simp only [hparent] at hsettles hkept hlasting hadv ⊢
        rw [if_neg fun hc => hnot (hq.trans hc)]
        exact h

end Entering

end Store

end ScopeCall
