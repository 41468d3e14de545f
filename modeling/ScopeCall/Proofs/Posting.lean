import ScopeCall.Proofs.Confining

/-!
# `ScopeCall.Proofs.Posting` — which guard stands for what

Every layout has a guard for its active bindings and one for its link, and every slot one for writes from
elsewhere and one for its conversion. The guard of a slot for writes from elsewhere is posted there and nowhere
else, so it falls only where it is invalidated by that post. Operations invalidate guards by their posts, and
post no guard but those they have just made; so whatever else they do leaves the guards of all slots standing.

## Contents
- **Posts.** `Store.post`, and `Store.Posted`: a guard of a slot has one post.
- **Upsets.** `Store.Upsets`: which slots have their guards fall, and `Store.Gentle` if there are none.
- **Quiet changes.** New guards that are posted once, `gentle_of_posts`, and changes beside guards.
- **Guards.** `upsets_invalidate`: a guard falls for the slots where it is posted.
- **Contents, slots and tokens.** `upsets_giveUpSharing`; what else is stored in a slot says nothing of its guard.
- **Links, layouts and scopes.** Each is given guards of its own, and leaves those of the slots standing.
-/

namespace ScopeCall

/-- What a guard may be posted for. -/
inductive Post where
  /-- The active bindings of a layout. -/
  | active (l : LayoutId)
  /-- The link of a layout to its parent. -/
  | link (l : LayoutId)
  /-- A slot that has not been modified from elsewhere. -/
  | unmodified (l : LayoutId) (i : Nat)
  /-- A slot that has not been converted. -/
  | shared (l : LayoutId) (i : Nat)
deriving DecidableEq, Repr

namespace Store

variable {s s₁ s₂ : Store} {l k : LayoutId} {a b : ActivationId} {i j : Nat} {g h : GuardId} {p : Post}
  {info : SlotInfo} {v : Value} {E E' : LayoutId → Nat → Prop}

/-! ## Posts -/

/-- The guard at a post, if there is the layout and the slot. -/
def post (s : Store) : Post → Option GuardId
  | .active l       => if l.index < s.layouts.size then some (s.layout l).noActiveBinding else none
  | .link l         => if l.index < s.layouts.size then some (s.layout l).enclosingGuard else none
  | .unmodified l i => (s.slot? l i).map (·.notModifiedNonLocally)
  | .shared l i     => (s.slot? l i).map (·.noFanOut)

/-- The guard of a slot has fallen: it has been modified from elsewhere. -/
def Disturbed (s : Store) (l : LayoutId) (i : Nat) : Prop :=
  ∃ g, s.post (.unmodified l i) = some g ∧ s.guardValid g = false

theorem disturbed_iff (hslot : s.slot? l i = some info) :
    s.Disturbed l i ↔ s.guardValid info.notModifiedNonLocally = false := by
  simp [Disturbed, post, hslot]

/-- Posted guards have been made, and that of a slot for writes from elsewhere is posted once; it is not the
    first of all guards, for its layout came before. A slot that is converted has been disturbed. -/
structure Posted (s : Store) : Prop where
  made : ∀ p g, s.post p = some g → g.index < s.guards.size
  own : ∀ l i p g, s.post (.unmodified l i) = some g → s.post p = some g → p = .unmodified l i
  positive : ∀ l i g, s.post (.unmodified l i) = some g → 0 < g.index
  fanned : ∀ b j, s.isFannedOut b j = true → s.Disturbed (s.layoutOf b) j

/-- In a program that starts nothing is posted. -/
theorem posted_new (names : List String) : (Store.new names).Posted := by
  have hnone : ∀ p, (Store.new names).post p = none := by
    intro p
    cases p <;> simp [post, slot?, layout, Store.new, default, instInhabitedLayout.default]
  refine ⟨fun p g h => ?_, fun l i p g h => ?_, fun l i g h => ?_, fun b j h => ?_⟩
  · exact absurd ((hnone p).symm.trans h) (Option.some_ne_none g).symm
  · exact absurd ((hnone _).symm.trans h) (Option.some_ne_none g).symm
  · exact absurd ((hnone _).symm.trans h) (Option.some_ne_none g).symm
  · exact absurd (allocated_of_isFannedOut h) (Nat.not_lt_zero _)

theorem post_eq_of_guards
    (h : (s₁.slot? l i).map SlotInfo.guards = (s.slot? l i).map SlotInfo.guards) :
    s₁.post (.unmodified l i) = s.post (.unmodified l i) ∧ s₁.post (.shared l i) = s.post (.shared l i) := by
  unfold post
  cases hnew : s₁.slot? l i <;> cases hold : s.slot? l i <;> simp_all [SlotInfo.guards]

/-- Layouts have changed, but for their guards and those of their slots. -/
theorem post_congr (hsize : s₁.layouts.size = s.layouts.size)
    (hactive : ∀ k, (s₁.layout k).noActiveBinding = (s.layout k).noActiveBinding)
    (hlink : ∀ k, (s₁.layout k).enclosingGuard = (s.layout k).enclosingGuard)
    (hslots : ∀ k j, (s₁.slot? k j).map SlotInfo.guards = (s.slot? k j).map SlotInfo.guards) (p : Post) :
    s₁.post p = s.post p := by
  cases p with
  | active k => rw [post, post, hsize, hactive]
  | link k => rw [post, post, hsize, hlink]
  | unmodified k j => exact (post_eq_of_guards (hslots k j)).1
  | shared k j => exact (post_eq_of_guards (hslots k j)).2

theorem post_of_layouts (h : s₁.layouts = s.layouts) (p : Post) : s₁.post p = s.post p := by
  have hlayout : s₁.layout = s.layout := by
    unfold layout
    rw [h]
  refine post_congr (by rw [h]) (fun k => by rw [hlayout]) (fun k => by rw [hlayout]) (fun k j => ?_) p
  rw [slot?, hlayout, ← slot?]

theorem post_modifyLayout (s : Store) (l : LayoutId) {f : Layout → Layout}
    (hactive : (f (s.layout l)).noActiveBinding = (s.layout l).noActiveBinding)
    (hlink : (f (s.layout l)).enclosingGuard = (s.layout l).enclosingGuard)
    (hslots : (f (s.layout l)).slots = (s.layout l).slots) (p : Post) :
    (s.modifyLayout l f).post p = s.post p := by
  refine post_congr Array.size_modify (fun k => ?_) (fun k => ?_) (fun k j => ?_) p
  · exact layout_modifyLayout_congr s Layout.noActiveBinding l k f hactive
  · exact layout_modifyLayout_congr s Layout.enclosingGuard l k f hlink
  · rw [slot?, layout_modifyLayout_congr s Layout.slots l k f hslots, ← slot?]

theorem post_modifySlot (s : Store) (l : LayoutId) (i : Nat) {f : SlotInfo → SlotInfo}
    (hf : ∀ info, (f info).guards = info.guards) (p : Post) : (s.modifySlot l i f).post p = s.post p := by
  refine post_congr Array.size_modify (fun k => ?_) (fun k => ?_) (fun k j => ?_) p
  · exact layout_modifyLayout_congr s Layout.noActiveBinding l k _ rfl
  · exact layout_modifyLayout_congr s Layout.enclosingGuard l k _ rfl
  · rw [slot?_modifySlot]
    split
    · rw [Option.map_map]
      exact congrArg (Option.map · (s.slot? k j)) (funext hf)
    · rfl

/-! ## Upsets -/

/-- A change after which the guards of the slots in `E` have fallen, and those that had fallen before. -/
structure Upsets (E : LayoutId → Nat → Prop) (s s' : Store) : Prop where
  kept : ∀ l i g, s.post (.unmodified l i) = some g → s'.post (.unmodified l i) = some g
  posted : s.Posted → s'.Posted
  disturbed : s.Posted → ∀ l i, s'.Disturbed l i ↔ s.Disturbed l i ∨ E l i

/-- A change that lets the guard of no slot fall. -/
abbrev Gentle (s s' : Store) : Prop := s.Upsets (fun _ _ => False) s'

namespace Upsets

theorem refl (s : Store) : s.Gentle s := ⟨fun _ _ _ => id, id, fun _ _ _ => (or_iff_left id).symm⟩

theorem trans (h : s.Upsets E s₁) (h' : s₁.Upsets E' s₂) : s.Upsets (fun l i => E l i ∨ E' l i) s₂ where
  kept l i g hg := h'.kept l i g (h.kept l i g hg)
  posted hs := h'.posted (h.posted hs)
  disturbed hs l i := by rw [h'.disturbed (h.posted hs), h.disturbed hs, or_assoc]

/-- The slots that are upset, said in another way. Those that had been disturbed do not matter. -/
theorem congr (h : s.Upsets E s₁) (hE : s.Posted → ∀ l i, E l i → s.Disturbed l i ∨ E' l i)
    (hE' : s₁.Posted → ∀ l i, E' l i → s₁.Disturbed l i ∨ E l i) : s.Upsets E' s₁ where
  kept := h.kept
  posted := h.posted
  disturbed hs l i := by
    have hiff := h.disturbed hs l i
    constructor
    · exact fun hdisturbed => (hiff.1 hdisturbed).elim Or.inl (hE hs l i)
    · rintro (hdisturbed | hnew)
      · exact hiff.2 (Or.inl hdisturbed)
      · exact (hE' (h.posted hs) l i hnew).elim id fun hE => hiff.2 (Or.inr hE)

/-- What is posted may be assumed. -/
theorem of_posted (hkept : ∀ l i g, s.post (.unmodified l i) = some g → s₁.post (.unmodified l i) = some g)
    (h : s.Posted → s.Upsets E s₁) : s.Upsets E s₁ :=
  ⟨hkept, fun hs => (h hs).posted hs, fun hs => (h hs).disturbed hs⟩

/-- What is no slot's event is gentle. -/
theorem gentle (h : s.Upsets E s₁) (hE : s.Posted → ∀ l i, ¬ E l i) : s.Gentle s₁ :=
  h.congr (fun hs l i hE' => absurd hE' (hE hs l i)) fun _ _ _ => False.elim

theorem before (h : s.Gentle s₁) (h' : s₁.Upsets E s₂) : s.Upsets E s₂ :=
  (h.trans h').congr (fun _ _ _ hE => Or.inr (hE.resolve_left id)) fun _ _ _ hE => Or.inr (Or.inr hE)

theorem after (h : s.Upsets E s₁) (h' : s₁.Gentle s₂) : s.Upsets E s₂ :=
  (h.trans h').congr (fun _ _ _ hE => Or.inr (hE.resolve_right id)) fun _ _ _ hE => Or.inr (Or.inl hE)

end Upsets

/-! ## Quiet changes -/

/-- **Only new guards are posted anew**, one for each of `news`, and no slot is converted: then no slot is
    disturbed. -/
theorem gentle_of_posts (news : List Post) (hsize : s.guards.size + news.length ≤ s₁.guards.size)
    (hold : ∀ g, g.index < s.guards.size → s₁.guardValid g = s.guardValid g)
    (hnew : ∀ d < news.length, s₁.guardValid ⟨s.guards.size + d⟩ = true)
    (hpositive : s.Posted → ∀ l i, .unmodified l i ∈ news → s₁.Allocated (.layout l) → 0 < s.guards.size)
    (hkept : ∀ l i g, s.post (.unmodified l i) = some g → s₁.post (.unmodified l i) = some g)
    (hposts : ∀ p g, s₁.post p = some g →
      s.post p = some g ∨ ∃ d, news[d]? = some p ∧ g = ⟨s.guards.size + d⟩)
    (hfanned : ∀ b j, s₁.isFannedOut b j = true →
      s.isFannedOut b j = true ∧ s₁.layoutOf b = s.layoutOf b) : s.Gentle s₁ := by
  have hlength : ∀ {d : Nat} {p : Post}, news[d]? = some p → d < news.length := fun h =>
    (List.getElem?_eq_some_iff.1 h).1
  have hdisturbed : s.Posted → ∀ l i, s₁.Disturbed l i ↔ s.Disturbed l i := by
    intro hs l i
    constructor
    · rintro ⟨g, hg, hfallen⟩
      -- A guard that has fallen is not new, since new guards stand.
      rcases hposts _ g hg with hpost | ⟨d, hd, rfl⟩
      · exact ⟨g, hpost, (hold g (hs.made _ g hpost)).symm.trans hfallen⟩
      · exact absurd (hfallen.symm.trans (hnew d (hlength hd))) Bool.false_ne_true
    · rintro ⟨g, hg, hfallen⟩
      exact ⟨g, hkept l i g hg, (hold g (hs.made _ g hg)).trans hfallen⟩
  constructor
  case kept => exact hkept
  case disturbed => exact fun hs l i => (hdisturbed hs l i).trans (or_iff_left id).symm
  case posted =>
    intro hs
    constructor
    case made =>
      intro p g hg
      rcases hposts p g hg with hpost | ⟨d, hd, rfl⟩
      · have hlt := hs.made p g hpost
        omega
      · have hlt := hlength hd
        show s.guards.size + d < s₁.guards.size
        omega
    case own =>
      intro l i p g hg hp
      -- An old guard is not a new one, so both posts are old, or both are new.
      rcases hposts _ g hg with hpost | ⟨d, hd, rfl⟩
      · rcases hposts p g hp with hpost' | ⟨d, -, rfl⟩
        · exact hs.own l i p g hpost hpost'
        · exact absurd (hs.made _ _ hpost) (Nat.not_lt.2 (Nat.le_add_right _ d))
      · rcases hposts p _ hp with hpost' | ⟨d', hd', heq⟩
        · exact absurd (hs.made _ _ hpost') (Nat.not_lt.2 (Nat.le_add_right _ d))
        · obtain rfl := Nat.add_left_cancel (GuardId.mk.inj heq)
          exact Option.some.inj (hd'.symm.trans hd)
    case positive =>
      intro l i g hg
      rcases hposts _ g hg with hpost | ⟨d, hd, rfl⟩
      · exact hs.positive l i g hpost
      · obtain ⟨info, hslot, -⟩ := Option.map_eq_some_iff.1 hg
        exact Nat.add_pos_left (hpositive hs l i (List.mem_of_getElem? hd) (allocated_of_slot? hslot)) d
    case fanned =>
      intro b j hb
      obtain ⟨hb', hlayout⟩ := hfanned b j hb
      rw [hdisturbed hs, hlayout]
      exact hs.fanned b j hb'

theorem fanned_of_activations (h : s₁.activations = s.activations) (b : ActivationId) (j : Nat)
    (hb : s₁.isFannedOut b j = true) : s.isFannedOut b j = true ∧ s₁.layoutOf b = s.layoutOf b := by
  rw [isFannedOut, content_congr h] at hb
  exact ⟨hb, congrFun (layoutOf_congr h) b⟩

/-- Nothing has become of guards and their posts. -/
theorem gentle_of_eq (hguards : s₁.guards = s.guards) (hposts : ∀ p, s₁.post p = s.post p)
    (hfanned : ∀ b j, s₁.isFannedOut b j = true →
      s.isFannedOut b j = true ∧ s₁.layoutOf b = s.layoutOf b) : s.Gentle s₁ := by
  refine gentle_of_posts [] (by rw [hguards]; exact le_rfl) (fun g _ => ?_) (fun _ => nofun) (fun _ _ _ => nofun)
    (fun l i g hg => (hposts _).trans hg) (fun p g hg => Or.inl ((hposts p).symm.trans hg)) hfanned
  rw [guardValid, guard, hguards, ← guard, ← guardValid]

/-- Guards, layouts and activations are as they were. -/
theorem gentle_of_same (hguards : s₁.guards = s.guards) (hlayouts : s₁.layouts = s.layouts)
    (hactivations : s₁.activations = s.activations) : s.Gentle s₁ :=
  gentle_of_eq hguards (post_of_layouts hlayouts) (fanned_of_activations hactivations)

theorem Swept.gentle (h : s.Swept s₁) : s.Gentle s₁ := by
  refine gentle_of_eq (by rw [h.eq]) (post_congr h.size (fun k => ?_) (fun k => ?_) fun k j => ?_)
    (fanned_of_activations h.activations)
  · rw [(h.layout k).eq]
  · rw [(h.layout k).eq]
  · rw [slot?, (h.layout k).slots, ← slot?]

theorem Notes.gentle (h : s.Notes s₁) : s.Gentle s₁ := by
  refine gentle_of_eq (by rw [h.rest]) (post_congr h.size (fun k => ?_) (fun k => ?_) fun k j => ?_)
    (fanned_of_activations (by rw [h.rest]))
  · rw [h.layout]
  · rw [h.layout]
  · rw [slot?, h.layout, slot?]

theorem Besides.gentle (h : s.Besides s₁) : s.Gentle s₁ := gentle_of_same h.guards h.layouts h.activations

theorem Readied.gentle (h : s.Readied s₁) : s.Gentle s₁ := by
  induction h with
  | refl => exact .refl s
  | tail _ hstep ih => exact ih.before (hstep.elim Besides.gentle Notes.gentle)

theorem gentle_invalidateNames (s : Store) (l : LayoutId) (names : List Name) : s.Gentle (s.invalidateNames l names) :=
  (swept_invalidateNames s l names).gentle

theorem gentle_invalidateAll (s : Store) (l : LayoutId) : s.Gentle (s.invalidateAll l) :=
  (swept_invalidateAll s l).gentle

/-- One layout has changed, but for its guards and its slots. -/
theorem gentle_modifyLayout (s : Store) (l : LayoutId) {f : Layout → Layout}
    (hactive : (f (s.layout l)).noActiveBinding = (s.layout l).noActiveBinding)
    (hlink : (f (s.layout l)).enclosingGuard = (s.layout l).enclosingGuard)
    (hslots : (f (s.layout l)).slots = (s.layout l).slots) : s.Gentle (s.modifyLayout l f) :=
  gentle_of_eq rfl (post_modifyLayout s l hactive hlink hslots) (fanned_of_activations rfl)

/-- One activation has changed, but for its layout, and without being converted anywhere. -/
theorem gentle_modifyActivation (s : Store) (a : ActivationId) {f : Activation → Activation}
    (hlayout : (f (s.activation a)).layout = (s.activation a).layout)
    (hfanned : ∀ j, ((f (s.activation a)).content j).isFanOut = ((s.activation a).content j).isFanOut) :
    s.Gentle (s.modifyActivation a f) := by
  refine gentle_of_eq rfl (post_of_layouts rfl) fun b j hb => ⟨?_, ?_⟩
  · rwa [isFannedOut, content, activation_modifyActivation_congr s (fun x => (x.content j).isFanOut) a b f (hfanned j)]
      at hb
  · exact activation_modifyActivation_congr s Activation.layout a b f hlayout

/-! ## Guards -/

/-- **A guard falls for the slots where it is posted.** -/
theorem upsets_invalidate (s : Store) (g : GuardId) :
    s.Upsets (fun l i => s.post (.unmodified l i) = some g) (s.invalidate g) := by
  have hpost : ∀ p, (s.invalidate g).post p = s.post p := post_of_layouts rfl
  have hsize : (s.invalidate g).guards.size = s.guards.size := Array.size_modify
  have hdisturbed : s.Posted → ∀ l i, (s.invalidate g).Disturbed l i
      ↔ s.Disturbed l i ∨ s.post (.unmodified l i) = some g := by
    intro hs l i
    constructor
    · rintro ⟨h, hh, hfallen⟩
      rw [hpost] at hh
      by_cases hne : h = g
      · exact Or.inr (hne ▸ hh)
      · exact Or.inl ⟨h, hh, (guardValid_invalidate_of_ne hne).symm.trans hfallen⟩
    · rintro (⟨h, hh, hfallen⟩ | hg)
      · exact ⟨h, (hpost _).trans hh, ((wanes_invalidate s g).fallen h ⟨hs.made _ h hh, hfallen⟩).2⟩
      · exact ⟨g, (hpost _).trans hg, (fallen_invalidate (hs.made _ g hg)).2⟩
  constructor
  case kept => exact fun l i h hh => (hpost _).trans hh
  case disturbed => exact hdisturbed
  case posted =>
    intro hs
    constructor
    case made => exact fun p h hh => Nat.lt_of_lt_of_eq (hs.made p h ((hpost p).symm.trans hh)) hsize.symm
    case own => exact fun l i p h hh hp => hs.own l i p h ((hpost _).symm.trans hh) ((hpost p).symm.trans hp)
    case positive => exact fun l i h hh => hs.positive l i h ((hpost _).symm.trans hh)
    case fanned => exact fun b j hb => (hdisturbed hs _ j).2 (Or.inl (hs.fanned b j hb))

/-- A guard that is posted elsewhere is no slot's. -/
theorem gentle_invalidate (hg : s.post p = some g) (hp : ∀ l i, p ≠ .unmodified l i) : s.Gentle (s.invalidate g) :=
  (upsets_invalidate s g).gentle fun hs l i hslot => hp l i (hs.own l i p g hslot hg)

/-- The guard of a link is no slot's, even if the layout was never made. -/
theorem gentle_invalidate_link (s : Store) (l : LayoutId) : s.Gentle (s.invalidate (s.layout l).enclosingGuard) := by
  by_cases hl : l.index < s.layouts.size
  · exact gentle_invalidate (p := .link l) (if_pos hl) nofun
  · -- It reads with the first of all guards, which is posted at no slot.
    refine (upsets_invalidate s _).gentle fun hs k j hslot => ?_
    have hzero : (s.layout l).enclosingGuard = ⟨0⟩ := by
      simp [layout, Array.getElem?_eq_none (Nat.not_lt.1 hl), default, instInhabitedLayout.default,
        instInhabitedGuardId.default]
    exact absurd (hs.positive k j _ hslot) (by rw [hzero]; exact Nat.lt_irrefl 0)

/-- An active binding is noted, which says nothing about who wrote it. -/
theorem gentle_noted (hslot : s.slot? (s.layoutOf a) i = some info) (v : Value) : s.Gentle (s.noted a v) := by
  unfold noted
  split
  · exact gentle_invalidate (p := .active (s.layoutOf a)) (if_pos (allocated_of_slot? hslot)) nofun
  · exact .refl s

/-- A write that is noted disturbs its slot. -/
theorem upsets_unmodified (hg : s.post (.unmodified l i) = some g) :
    s.Upsets (fun k j => k = l ∧ j = i) (s.invalidate g) := by
  refine (upsets_invalidate s g).congr (fun hs k j hslot => Or.inr ?_) ?_
  · obtain ⟨rfl, rfl⟩ := Post.unmodified.inj (hs.own k j _ g hslot hg)
    exact ⟨rfl, rfl⟩
  · rintro - k j ⟨rfl, rfl⟩
    exact Or.inr hg

theorem upsets_noteWrite (hg : s.post (.unmodified l i) = some info.notModifiedNonLocally)
    (nonLocal irregular : Bool) : s.Upsets (fun k j => k = l ∧ j = i ∧ (nonLocal || irregular) = true)
      (s.noteWrite info nonLocal irregular) := by
  unfold noteWrite
  split
  · rename_i hnoted
    exact (upsets_unmodified hg).congr (fun _ _ _ h => Or.inr ⟨h.1, h.2, hnoted⟩) fun _ _ _ h => Or.inr ⟨h.1, h.2.1⟩
  · rename_i hquiet
    exact (Upsets.refl s).congr (fun _ _ _ => False.elim) fun _ _ _ h => absurd h.2.2 hquiet

/-! ## Contents, slots and tokens -/

/-- A slot whose guard has fallen may be converted. -/
theorem gentle_setContent {c : SlotContent}
    (hc : s.Posted → c.isFanOut = true → s.Disturbed (s.layoutOf a) i) : s.Gentle (s.setContent a i c) := by
  have hpost : ∀ p, (s.setContent a i c).post p = s.post p := post_of_layouts rfl
  have hdisturbed : ∀ k j, (s.setContent a i c).Disturbed k j ↔ s.Disturbed k j := fun _ _ => Iff.rfl
  refine ⟨fun _ _ _ => id, fun hs => ⟨hs.made, hs.own, hs.positive, fun b j hb => ?_⟩,
    fun _ k j => (hdisturbed k j).trans (or_iff_left id).symm⟩
  have hlayout := s.layoutOf_setContent a b i c
  have ha := (Leads.allocated_modifyActivation s a _ (.activation b)).1 (allocated_of_isFannedOut hb)
  rw [hdisturbed, hlayout]
  by_cases hsame : b = a ∧ j = i
  · obtain ⟨rfl, rfl⟩ := hsame
    rw [isFannedOut, content_setContent s b j j c ha, if_pos ⟨rfl, rfl⟩] at hb
    exact hc hs hb
  · -- Elsewhere the content is as it was, and so it is if there is no scope to set it in.
    refine hs.fanned b j ?_
    by_cases ha' : s.Allocated (.activation a)
    · rwa [isFannedOut, content_setContent s b i j c ha', if_neg hsame] at hb
    · rwa [isFannedOut, content, setContent, activation_modifyActivation, if_neg fun hc => ha' hc.2] at hb

theorem gentle_modifySlot (s : Store) (l : LayoutId) (i : Nat) {f : SlotInfo → SlotInfo}
    (hf : ∀ info, (f info).guards = info.guards) : s.Gentle (s.modifySlot l i f) :=
  gentle_of_eq rfl (post_modifySlot s l i hf) (fanned_of_activations rfl)

/-- Tracking a slot replaces its token, and leaves its guards alone. -/
theorem gentle_recordWrite (s : Store) (l : LayoutId) (i : Nat) (v : Option Value) :
    s.Gentle ((recordWrite l i v).run s).2 := by
  rcases recordWrite_keeps_or_replaces s l i v with hsame | ⟨info, t, hreplaced⟩
  · rw [hsame]
    exact .refl s
  · rw [hreplaced]
    unfold replaceStable
    dsimp only
    have hinvalid : s.Gentle (s.invalidateStable t) := gentle_of_same rfl rfl rfl
    split
    · have hadd : (s.invalidateStable t).Gentle ((s.invalidateStable t).addStable info.label v) :=
        gentle_of_same rfl rfl rfl
      exact (hinvalid.before hadd).before (gentle_modifySlot _ l i fun _ => rfl)
    · exact hinvalid.before (gentle_modifySlot _ l i fun _ => rfl)

theorem gentle_emptied (s : Store) (l : LayoutId) (i n : Nat) : s.Gentle (s.emptied l i n) := by
  induction n generalizing s i with
  | zero => exact .refl s
  | succ n ih =>
      rw [emptied_succ]
      exact (gentle_recordWrite s l i none).before (ih _ (i + 1))

theorem gentle_dropStable (s : Store) (l : LayoutId) (i : Nat) : s.Gentle (s.dropStable l i) := by
  unfold dropStable
  split
  · exact .refl s
  · have hgive : s.Gentle (s.modifySlot l i (·.giveUp)) := gentle_modifySlot s l i fun _ => rfl
    dsimp only
    split
    · exact hgive
    · exact hgive.before (gentle_of_same rfl rfl rfl)

/-- **A slot that is given up is disturbed.** -/
theorem upsets_giveUpSharing (hslot : s.slot? l i = some info) :
    s.Upsets (fun k j => k = l ∧ j = i) (s.giveUpSharing l i info) := by
  have hfirst : s.Upsets _ (s.invalidate info.notModifiedNonLocally) :=
    upsets_unmodified (l := l) (i := i) (by simp [post, hslot])
  -- Dropping the token in between leaves both guards posted where they were.
  have hslot₁ : (s.invalidate info.notModifiedNonLocally).slot? l i = some info := hslot
  obtain ⟨-, -, hslot₂⟩ := wanes_dropStable hslot₁
  refine (hfirst.after (gentle_dropStable _ l i)).after (gentle_invalidate (p := .shared l i) ?_ nofun)
  rw [post, hslot₂]
  rfl

/-! ## Links and layouts -/

theorem size_addGuard (s : Store) (label : String) : (s.addGuard label).guards.size = s.guards.size + 1 :=
  Array.size_push _

/-- The guards after one more has been made. -/
theorem guardValid_addGuard (s : Store) (label : String) (g : GuardId) :
    (s.addGuard label).guardValid g = if g.index = s.guards.size then true else s.guardValid g := by
  rw [guardValid, guard_addGuard]
  split <;> rfl

/-- A layout is linked to a parent, with a guard that is posted there. -/
theorem post_linkTo {parent : Option LayoutId} (hh : (s.modifyLayout l (·.linkTo parent g)).post p = some h) :
    s.post p = some h ∨ p = .link l ∧ h = g := by
  have hsize : (s.modifyLayout l (·.linkTo parent g)).layouts.size = s.layouts.size := Array.size_modify
  cases p with
  | active k =>
      rw [post, hsize, layout_modifyLayout_congr s Layout.noActiveBinding l k _ rfl] at hh
      exact Or.inl hh
  | link k =>
      rw [post, hsize, layout_modifyLayout] at hh
      split at hh
      case isFalse => cases hh
      split at hh
      · rename_i hk
        exact Or.inr ⟨congrArg Post.link hk.1, (Option.some.inj hh).symm⟩
      · rename_i hk _
        exact Or.inl ((if_pos hk).trans hh)
  | unmodified k j | shared k j =>
      rw [post, slot?, layout_modifyLayout_congr s Layout.slots l k _ rfl, ← slot?] at hh
      exact Or.inl hh

/-- **A link is given a guard of its own.** -/
theorem gentle_relinked (s : Store) (l : LayoutId) (parent : Option LayoutId) : s.Gentle (s.relinked l parent) := by
  refine (gentle_invalidate_link s l).before ?_
  unfold relinked
  generalize s.invalidate (s.layout l).enclosingGuard = s₁
  generalize (s.layout l).label ++ " enclosing" = label
  have hvalid := guardValid_addGuard s₁ label
  have hold : ∀ p, (s₁.addGuard label).post p = s₁.post p := post_of_layouts rfl
  refine gentle_of_posts [.link l] (size_addGuard s₁ label).ge
    (fun g hg => (hvalid g).trans (if_neg (Nat.ne_of_lt hg))) (fun d hd => ?_) (fun _ k j => nofun)
    (fun k j g hg => ?_) (fun p g hg => ?_) (fanned_of_activations rfl)
  · exact (hvalid _).trans (if_pos (by simpa using hd))
  · rwa [post, slot?, layout_modifyLayout_congr _ Layout.slots l k _ rfl, ← slot?]
  · rcases post_linkTo hg with hpost | ⟨rfl, rfl⟩
    · exact Or.inl ((hold p).symm.trans hpost)
    · exact Or.inr ⟨0, rfl, rfl⟩

theorem gentle_addChild (s : Store) (p l : LayoutId) : s.Gentle (s.addChild p l) :=
  gentle_modifyLayout s p (addChild_part _ (fun _ _ => rfl) _ l) (addChild_part _ (fun _ _ => rfl) _ l)
    (addChild_part _ (fun _ _ => rfl) _ l)

theorem gentle_removeChild (s : Store) (p l : LayoutId) : s.Gentle (s.removeChild p l) :=
  gentle_modifyLayout s p rfl rfl rfl

theorem gentle_setEnclosingLink (s : Store) (a : ActivationId) (parent : Option ActivationId) :
    s.Gentle (s.setEnclosingLink a parent) := gentle_modifyActivation s a rfl fun _ => rfl

theorem gentle_rehung (s : Store) (l : LayoutId) (parent : Option LayoutId) : s.Gentle (s.rehung l parent) := by
  have hunhooked : s.Gentle (s.unhooked l parent) := by
    unfold unhooked
    split
    · exact (gentle_relinked s l parent).before (gentle_removeChild _ _ l)
    · exact gentle_relinked s l parent
  unfold rehung
  split
  · exact hunhooked.before (gentle_addChild _ _ l)
  · exact hunhooked

theorem gentle_spliced (s : Store) (l inserted old : LayoutId) : s.Gentle (s.spliced l inserted old) :=
  ((((gentle_relinked s inserted _).before (gentle_relinked _ l _)).before (gentle_addChild _ inserted l)).before
    (gentle_removeChild _ old l)).before (gentle_addChild _ old inserted)

theorem gentle_bypassed (s : Store) (l old : LayoutId) (grandparent : Option LayoutId) :
    s.Gentle (s.bypassed l old grandparent) := by
  have hremoved := ((gentle_relinked s l grandparent).before (gentle_relinked _ old none)).before
    (gentle_removeChild _ old l)
  unfold bypassed
  dsimp only
  split
  · exact hremoved
  · exact (hremoved.before (gentle_removeChild _ _ old)).before (gentle_addChild _ _ l)

theorem gentle_initializeEnclosing (s : Store) (l : LayoutId) (parent : Option LayoutId) :
    s.Gentle ((initializeEnclosing l parent).run.run s).2 := by
  rw [initializeEnclosing_run]
  split
  · exact (gentle_relinked s l _).before (gentle_addChild _ _ l)
  · split <;> exact .refl s

/-- A slot is added, with two guards that are posted there. -/
theorem post_addSlot {new : SlotInfo} (hh : (s.modifyLayout l (·.addSlot new)).post p = some h) :
    s.post p = some h ∨ p = .unmodified l (s.layout l).slots.size ∧ h = new.notModifiedNonLocally
      ∨ p = .shared l (s.layout l).slots.size ∧ h = new.noFanOut := by
  have hsize : (s.modifyLayout l (·.addSlot new)).layouts.size = s.layouts.size := Array.size_modify
  cases p with
  | active k =>
      rw [post, hsize, layout_modifyLayout_congr s Layout.noActiveBinding l k _ rfl] at hh
      exact Or.inl hh
  | link k =>
      rw [post, hsize, layout_modifyLayout_congr s Layout.enclosingGuard l k _ rfl] at hh
      exact Or.inl hh
  | unmodified k j =>
      rw [post, slot?_addSlot] at hh
      split at hh
      · rename_i hk
        exact Or.inr (Or.inl ⟨by rw [hk.1, hk.2.2], (Option.some.inj hh).symm⟩)
      · exact Or.inl hh
  | shared k j =>
      rw [post, slot?_addSlot] at hh
      split at hh
      · rename_i hk
        exact Or.inr (Or.inr ⟨by rw [hk.1, hk.2.2], (Option.some.inj hh).symm⟩)
      · exact Or.inl hh

/-- **Two new guards, each at a post of its own**, disturb no slot. -/
theorem gentle_of_two {q r : Post} {label label' : String}
    (hguards : s₁.guards = ((s.addGuard label).addGuard label').guards)
    (hpositive : s.Posted → ∀ l i, .unmodified l i ∈ [q, r] → s₁.Allocated (.layout l) → 0 < s.guards.size)
    (hkept : ∀ l i g, s.post (.unmodified l i) = some g → s₁.post (.unmodified l i) = some g)
    (hposts : ∀ p g, s₁.post p = some g → s.post p = some g ∨ p = q ∧ g = ⟨s.guards.size⟩
      ∨ p = r ∧ g = ⟨(s.addGuard label).guards.size⟩)
    (hactivations : s₁.activations = s.activations) : s.Gentle s₁ := by
  have hsize := size_addGuard s label
  have hvalid : ∀ g, s₁.guardValid g = if g.index = s.guards.size + 1 then true
      else if g.index = s.guards.size then true else s.guardValid g := fun g => by
    rw [guardValid, guard, hguards, ← guard, ← guardValid, guardValid_addGuard, guardValid_addGuard, hsize]
  refine gentle_of_posts [q, r] ?_ (fun g hg => ?_) (fun d hd => ?_) hpositive hkept (fun p g hg => ?_)
    (fanned_of_activations hactivations)
  · rw [hguards, size_addGuard, hsize]
    exact le_rfl
  · rw [hvalid, if_neg (by omega), if_neg (by omega)]
  · rw [hvalid]
    obtain rfl | rfl : d = 0 ∨ d = 1 := by
      simp only [List.length_cons, List.length_nil] at hd
      omega
    · simp
    · simp
  · rcases hposts p g hg with hpost | ⟨rfl, rfl⟩ | ⟨rfl, rfl⟩
    · exact Or.inl hpost
    · exact Or.inr ⟨0, rfl, rfl⟩
    · exact Or.inr ⟨1, rfl, congrArg GuardId.mk hsize⟩

/-- **A slot is given guards of its own.** -/
theorem gentle_widened (s : Store) (l : LayoutId) (n : Name) : s.Gentle (s.widened l n) := by
  unfold widened
  dsimp only
  generalize (s.layout l).label ++ "[" ++ toString (s.layout l).slots.size ++ "]" = label
  have hbase : s.Gentle (if (s.layout l).kind.isSingleton then s.addStable label none else s)
      ∧ (if (s.layout l).kind.isSingleton then s.addStable label none else s : Store).layouts = s.layouts := by
    split
    · exact ⟨gentle_of_same rfl rfl rfl, rfl⟩
    · exact ⟨.refl s, rfl⟩
  obtain ⟨hgentle, hlayouts⟩ := hbase
  refine hgentle.before ?_
  generalize (if (s.layout l).kind.isSingleton then _ else s : Store) = s₁ at hlayouts ⊢
  generalize label ++ " not modified non-locally" = label₁
  generalize label ++ " not fanned out" = label₂
  have hold : ∀ p, ((s₁.addGuard label₁).addGuard label₂).post p = s₁.post p := post_of_layouts rfl
  refine gentle_of_two (q := .unmodified l (s₁.layout l).slots.size) (r := .shared l (s₁.layout l).slots.size) rfl
    (fun hs k j _ halloc => ?_) (fun k j g hg => ?_) (fun p g hg => ?_) rfl
  · -- The guards of the layout were made before.
    have hk' : k.index < s₁.layouts.size := (Leads.allocated_modifyLayout _ l _ (.layout k)).1 halloc
    exact Nat.zero_lt_of_lt (hs.made (.active k) _ (if_pos hk'))
  · rw [post, slot?_addSlot, if_neg]
    · exact hg
    · -- The slot that is added was not there before.
      rintro ⟨rfl, -, rfl⟩
      obtain ⟨info, hslot, -⟩ := Option.map_eq_some_iff.1 hg
      exact absurd (Array.getElem?_eq_some_iff.1 hslot).1 (Nat.lt_irrefl _)
  · exact (post_addSlot hg).imp_left (hold p).symm.trans

theorem gentle_findOrAddSlot (s : Store) (l : LayoutId) (n : Name) : s.Gentle ((findOrAddSlot l n).run s).2 := by
  rw [findOrAddSlot_run]
  cases (s.layout l).slotIndex? n with
  | some i => exact .refl s
  | none => exact (gentle_widened s l n).before (gentle_invalidateNames _ l [n])

theorem gentle_slotted (s : Store) (l : LayoutId) (fs : List Formal) : s.Gentle (s.slotted l fs) := by
  induction fs generalizing s with
  | nil => exact .refl s
  | cons f fs ih => exact (gentle_findOrAddSlot s l f.name).before (ih _)

/-- A layout is added without slots, with two guards that are posted there. -/
theorem post_addLayout {x : Layout} (hslots : x.slots = #[]) (hh : (s.addLayout x).post p = some h) :
    s.post p = some h ∨ p = .active ⟨s.layouts.size⟩ ∧ h = x.noActiveBinding
      ∨ p = .link ⟨s.layouts.size⟩ ∧ h = x.enclosingGuard := by
  have hsize : (s.addLayout x).layouts.size = s.layouts.size + 1 := Array.size_push _
  have hpart : ∀ (part : Layout → GuardId) (k : LayoutId),
      (if k.index < (s.addLayout x).layouts.size then some (part ((s.addLayout x).layout k)) else none) = some h →
      (if k.index < s.layouts.size then some (part (s.layout k)) else none) = some h
        ∨ k = ⟨s.layouts.size⟩ ∧ h = part x := by
    intro part k hk
    rw [layout_addLayout] at hk
    split at hk
    case isFalse => cases hk
    rename_i hlt
    split at hk
    · rename_i heq
      exact Or.inr ⟨congrArg LayoutId.mk heq, (Option.some.inj hk).symm⟩
    · rename_i hne
      exact Or.inl ((if_pos (by omega)).trans hk)
  have hslot : ∀ k j info, (s.addLayout x).slot? k j = some info → s.slot? k j = some info := by
    intro k j info hinfo
    rw [slot?, layout_addLayout] at hinfo
    split at hinfo
    · simp [hslots] at hinfo
    · exact hinfo
  cases p with
  | active k =>
      refine (hpart (·.noActiveBinding) k hh).imp_right fun hnew => Or.inl ⟨?_, hnew.2⟩
      rw [hnew.1]
  | link k =>
      refine (hpart (·.enclosingGuard) k hh).imp_right fun hnew => Or.inr ⟨?_, hnew.2⟩
      rw [hnew.1]
  | unmodified k j | shared k j =>
      obtain ⟨info, hinfo, rfl⟩ := Option.map_eq_some_iff.1 hh
      exact Or.inl (by rw [post, hslot k j info hinfo]; rfl)

/-- **A layout is made with guards of its own**, and without slots. -/
theorem gentle_newLayout (s : Store) (label : String) (kind : LayoutKind) (policy : BindingPolicy) :
    s.Gentle ((newLayout label kind policy).run s).2 := by
  rw [newLayout_run]
  dsimp only
  generalize label ++ " has no active bindings" = label₁
  generalize label ++ " enclosing" = label₂
  have hold : ∀ p, ((s.addGuard label₁).addGuard label₂).post p = s.post p := post_of_layouts rfl
  refine gentle_of_two (q := .active ⟨s.layouts.size⟩) (r := .link ⟨s.layouts.size⟩) rfl
    (fun _ k j hk => by simp at hk) (fun k j g hg => ?_) (fun p g hg => ?_) rfl
  · obtain ⟨info, hslot, rfl⟩ := Option.map_eq_some_iff.1 hg
    have hk : k.index ≠ ((s.addGuard label₁).addGuard label₂).layouts.size :=
      Nat.ne_of_lt (allocated_of_slot? hslot)
    rw [post, slot?, layout_addLayout, if_neg hk, ← slot?]
    exact hg
  · exact (post_addLayout rfl hg).imp_left (hold p).symm.trans

/-! ## New scopes -/

/-- A scope is made without contents. -/
theorem gentle_joined (s : Store) (l : LayoutId) (enclosing : Option ActivationId) (depth : Nat) :
    s.Gentle (s.joined l enclosing depth) := by
  have hpush : (s.joined l enclosing depth).activations = s.activations.push (s.entrant l enclosing depth) := rfl
  refine gentle_of_eq rfl (post_of_layouts rfl) fun b j hb => ?_
  rw [isFannedOut, content_push rfl hpush] at hb
  refine ⟨hb, ?_⟩
  rw [layoutOf, activation_push hpush, if_neg (Nat.ne_of_lt (allocated_of_isFannedOut hb)), ← layoutOf]

theorem gentle_enter (s : Store) (l : LayoutId) (enclosing : Option ActivationId) (depth : Nat) :
    s.Gentle ((enter l enclosing depth).run.run s).2 := by
  have hjoined := gentle_joined s l enclosing depth
  have hclaimed : s.Gentle (s.claimed l enclosing depth) := hjoined.before (gentle_modifyLayout _ l rfl rfl rfl)
  rw [enter_run]
  split
  · split
    · exact gentle_of_same rfl rfl rfl
    · dsimp only
      split
      · exact (hclaimed.before (gentle_emptied _ l _ _)).before (gentle_invalidateAll _ l)
      · exact hclaimed
  · exact hjoined

/-- **Neither making a scope nor emptying a layout that is entered again** disturbs a slot. -/
theorem gentle_newScope (s : Store) (l : LayoutId) (enclosing : Option ActivationId) (depth : Nat) :
    s.Gentle ((newScope l enclosing depth).run.run s).2 := by
  rw [newScope_run]
  split
  · exact gentle_enter s l enclosing depth
  · have hlink := gentle_initializeEnclosing s l (enclosing.map s.layoutOf)
    generalize (initializeEnclosing l (enclosing.map s.layoutOf)).run.run s = linked at hlink ⊢
    rcases linked with ⟨e | _, s₁⟩
    · exact hlink
    · exact hlink.before (gentle_enter s₁ l enclosing depth)

end Store

end ScopeCall
