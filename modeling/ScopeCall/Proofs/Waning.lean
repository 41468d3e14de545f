import ScopeCall.Proofs.Entering
import ScopeCall.Proofs.Placing
import ScopeCall.Proofs.Rewiring
import ScopeCall.Proofs.Running

/-!
# `ScopeCall.Proofs.Waning` — guards of layouts and slots only fall

A layout has one guard for all its active bindings, and each slot one for its conversion to a value per
context. They are made with the layout and with the slot, stay theirs, and are never valid again once they
have fallen; a slot that is not tracked any more is not tracked again. What operations do to layouts is made
up of few changes, and each keeps to this.

## Contents
- **Fallen guards.** `Store.Fallen`, and `Store.Furnished`: guards have been made, and slots are told apart
  by their names.
- **Waning.** `Store.Wanes`, with what stays fallen.
- **Changes.** Guards and layouts one at a time: `wanes_invalidate`, `wanes_modifySlot`, `wanes_widened`.
- **Links and sweeps.**
-/

namespace ScopeCall

/-- What a slot keeps: its name, its guards, and that it is given up. -/
structure SlotInfo.Keeps (info info' : SlotInfo) : Prop where
  name : info'.name = info.name
  notModified : info'.notModifiedNonLocally = info.notModifiedNonLocally
  noFanOut : info'.noFanOut = info.noFanOut
  mayFanOut : info'.mayFanOut = info.mayFanOut
  given : info.stable = none → info'.stable = none

theorem SlotInfo.Keeps.refl (info : SlotInfo) : info.Keeps info := ⟨rfl, rfl, rfl, rfl, id⟩

theorem SlotInfo.Keeps.trans {info info' info'' : SlotInfo} (h : info.Keeps info')
    (h' : info'.Keeps info'') : info.Keeps info'' :=
  ⟨h'.name.trans h.name, h'.notModified.trans h.notModified, h'.noFanOut.trans h.noFanOut,
    h'.mayFanOut.trans h.mayFanOut, fun hn => h'.given (h.given hn)⟩

/-- The two guards of a slot. -/
def SlotInfo.guards (info : SlotInfo) : List GuardId := [info.notModifiedNonLocally, info.noFanOut]

theorem SlotInfo.Keeps.guards {info info' : SlotInfo} (h : info.Keeps info') : info'.guards = info.guards := by
  unfold SlotInfo.guards
  rw [h.notModified, h.noFanOut]

/-- The guard of a layout for its active bindings, and the guards of its slots. -/
def Layout.ownGuards (x : Layout) : List GuardId := x.noActiveBinding :: x.slots.toList.flatMap SlotInfo.guards

theorem Layout.ownGuards_addSlot (x : Layout) (info : SlotInfo) :
    (x.addSlot info).ownGuards = x.ownGuards ++ info.guards := by
  simp [Layout.ownGuards, Layout.addSlot]

theorem Layout.ownGuards_modifySlot {x : Layout} {i : Nat} {f : SlotInfo → SlotInfo}
    (hf : ∀ info, x.slots[i]? = some info → info.Keeps (f info)) : (x.modifySlot i f).ownGuards = x.ownGuards := by
  have hmap : (x.modifySlot i f).slots.toList.map SlotInfo.guards = x.slots.toList.map SlotInfo.guards := by
    refine List.ext_getElem? fun j => ?_
    simp only [Layout.modifySlot, List.getElem?_map, Array.getElem?_toList, Array.getElem?_modify]
    split
    · rename_i hij
      subst hij
      cases h : x.slots[i]? with
      | none => rfl
      | some info => exact congrArg some (hf info h).guards
    · rfl
  unfold Layout.ownGuards
  rw [List.flatMap_def, List.flatMap_def, hmap]
  rfl

namespace Store

variable {s s₁ s₂ : Store} {l : LayoutId} {i : Nat} {info : SlotInfo}

/-! ## Fallen guards -/

/-- A guard has been made, and has fallen. -/
def Fallen (s : Store) (g : GuardId) : Prop := g.index < s.guards.size ∧ s.guardValid g = false

/-- The guards of a layout and its slots have been made, each for itself, and a name has one slot of a layout. -/
structure Furnished (s : Store) : Prop where
  own : ∀ l, s.Allocated (.layout l) →
    (s.layout l).ownGuards.Nodup ∧ ∀ g ∈ (s.layout l).ownGuards, g.index < s.guards.size
  named : ∀ l i info, s.slot? l i = some info → (s.layout l).slotIndex? info.name = some i

theorem mem_ownGuards {g : GuardId} (h : s.slot? l i = some info) (hg : g ∈ info.guards) :
    g ∈ (s.layout l).ownGuards := by
  apply List.mem_cons_of_mem
  rw [List.mem_flatMap]
  exact ⟨info, Array.mem_toList_iff.2 (Array.mem_of_getElem? h), hg⟩

theorem Furnished.layouts (h : s.Furnished) (l : LayoutId) (hl : s.Allocated (.layout l)) :
    (s.layout l).noActiveBinding.index < s.guards.size := (h.own l hl).2 _ List.mem_cons_self

theorem Furnished.slots (h : s.Furnished) (l : LayoutId) (i : Nat) (info : SlotInfo)
    (hslot : s.slot? l i = some info) : info.noFanOut.index < s.guards.size :=
  (h.own l (allocated_of_slot? hslot)).2 _ (mem_ownGuards hslot (by simp [SlotInfo.guards]))

theorem furnished_new (names : List String) : (Store.new names).Furnished := by
  constructor <;> intros <;>
    simp_all [Allocated, slot?, layout, Store.new, default, instInhabitedLayout.default]

/-- A layout has been found to hold an active binding. -/
def NotesActive (s : Store) (l : LayoutId) : Prop :=
  s.Allocated (.layout l) ∧ s.Fallen (s.layout l).noActiveBinding

/-- A slot is not shared by contexts any more: its guard has fallen, and it is not tracked. -/
def Unshared (s : Store) (l : LayoutId) (i : Nat) : Prop :=
  ∃ info, s.slot? l i = some info ∧ s.Fallen info.noFanOut ∧ info.stable = none ∧ info.mayFanOut = true

/-! ## Waning -/

/-- Guards only fall, and layouts and slots keep theirs. -/
structure Wanes (s s' : Store) : Prop where
  size : s.guards.size ≤ s'.guards.size
  fallen : ∀ g, s.Fallen g → s'.Fallen g
  layouts : ∀ l, s.Allocated (.layout l) →
    s'.Allocated (.layout l) ∧ (s'.layout l).noActiveBinding = (s.layout l).noActiveBinding
  slots : ∀ l i info, s.slot? l i = some info → ∃ info', s'.slot? l i = some info' ∧ info.Keeps info'
  furnished : s.Furnished → s'.Furnished

namespace Wanes

theorem refl (s : Store) : s.Wanes s :=
  ⟨le_rfl, fun _ => id, fun _ h => ⟨h, rfl⟩, fun _ _ info h => ⟨info, h, .refl info⟩, id⟩

theorem trans (h : s.Wanes s₁) (h' : s₁.Wanes s₂) : s.Wanes s₂ where
  size := h.size.trans h'.size
  fallen g hg := h'.fallen g (h.fallen g hg)
  layouts l hl := by
    obtain ⟨hl₁, hsame⟩ := h.layouts l hl
    obtain ⟨hl₂, hsame'⟩ := h'.layouts l hl₁
    exact ⟨hl₂, hsame'.trans hsame⟩
  slots l i info hslot := by
    obtain ⟨info₁, hslot₁, hkeeps⟩ := h.slots l i info hslot
    obtain ⟨info₂, hslot₂, hkeeps'⟩ := h'.slots l i info₁ hslot₁
    exact ⟨info₂, hslot₂, hkeeps.trans hkeeps'⟩
  furnished hf := h'.furnished (h.furnished hf)

/-- What has been noted at a layout stays noted. -/
theorem notesActive (h : s.Wanes s₁) (hl : s.NotesActive l) : s₁.NotesActive l := by
  obtain ⟨hl₁, hsame⟩ := h.layouts l hl.1
  exact ⟨hl₁, hsame ▸ h.fallen _ hl.2⟩

/-- A slot is not shared again. -/
theorem unshared (h : s.Wanes s₁) (hi : s.Unshared l i) : s₁.Unshared l i := by
  obtain ⟨info, hslot, hfallen, hnone, hmay⟩ := hi
  obtain ⟨info₁, hslot₁, hkeeps⟩ := h.slots l i info hslot
  exact ⟨info₁, hslot₁, hkeeps.noFanOut ▸ h.fallen _ hfallen, hkeeps.given hnone,
    hkeeps.mayFanOut.trans hmay⟩

/-- Layouts have changed, but for their slots and the guards of their active bindings. -/
theorem of_slots (hsize : s.guards.size ≤ s₁.guards.size) (hfallen : ∀ g, s.Fallen g → s₁.Fallen g)
    (hlayouts : s₁.layouts.size = s.layouts.size)
    (hactive : ∀ l, (s₁.layout l).noActiveBinding = (s.layout l).noActiveBinding)
    (hslots : ∀ l, (s₁.layout l).slots = (s.layout l).slots) : s.Wanes s₁ := by
  have halloc : ∀ l, s₁.Allocated (.layout l) ↔ s.Allocated (.layout l) := fun l => by
    rw [Allocated, hlayouts]
    rfl
  have hslot : ∀ l i, s₁.slot? l i = s.slot? l i := fun l i => by
    rw [slot?, hslots, ← slot?]
  refine ⟨hsize, hfallen, fun l hl => ⟨(halloc l).2 hl, hactive l⟩, fun l i info h =>
    ⟨info, (hslot l i).trans h, .refl info⟩, fun hf => ⟨fun l hl => ?_, fun l i info h => ?_⟩⟩
  · rw [Layout.ownGuards, hactive, hslots, ← Layout.ownGuards]
    obtain ⟨hnodup, hmade⟩ := hf.own l ((halloc l).1 hl)
    exact ⟨hnodup, fun g hg => Nat.lt_of_lt_of_le (hmade g hg) hsize⟩
  · rw [Layout.slotIndex?, hslots, ← Layout.slotIndex?]
    exact hf.named l i info ((hslot l i).symm.trans h)

/-- Nothing has become of guards and layouts. -/
theorem of_eq (hguards : s₁.guards = s.guards) (hlayouts : s₁.layouts = s.layouts) : s.Wanes s₁ := by
  have hlayout : s₁.layout = s.layout := by
    unfold layout
    rw [hlayouts]
  refine of_slots (by rw [hguards]) (fun g hg => ?_) (by rw [hlayouts]) (fun l => by rw [hlayout])
    fun l => by rw [hlayout]
  rwa [Fallen, guardValid, guard, hguards]

end Wanes

/-! ## Changes -/

theorem guard_invalidate (s : Store) (g h : GuardId) : (s.invalidate g).guard h
    = if h.index = g.index ∧ g.index < s.guards.size then (s.guard g).fallen else s.guard h :=
  Array.getD_modify s.guards g.index h.index Guard.fallen

theorem guard_addGuard (s : Store) (label : String) (h : GuardId) : (s.addGuard label).guard h
    = if h.index = s.guards.size then ⟨label, true⟩ else s.guard h :=
  Array.getD_push s.guards _ h.index

/-- A guard that has been made falls when it is invalidated. -/
theorem fallen_invalidate {g : GuardId} (hg : g.index < s.guards.size) : (s.invalidate g).Fallen g := by
  refine ⟨Nat.lt_of_lt_of_eq hg Array.size_modify.symm, ?_⟩
  rw [guardValid, guard_invalidate, if_pos ⟨rfl, hg⟩]
  rfl

theorem wanes_invalidate (s : Store) (g : GuardId) : s.Wanes (s.invalidate g) := by
  have hsize : (s.invalidate g).guards.size = s.guards.size := Array.size_modify
  refine .of_slots hsize.ge (fun h hh => ⟨Nat.lt_of_lt_of_eq hh.1 hsize.symm, ?_⟩) rfl (fun _ => rfl)
    fun _ => rfl
  rw [guardValid, guard_invalidate]
  split
  · rfl
  · exact hh.2

theorem wanes_addGuard (s : Store) (label : String) : s.Wanes (s.addGuard label) := by
  have hsize : (s.addGuard label).guards.size = s.guards.size + 1 := Array.size_push _
  refine .of_slots (hsize ▸ Nat.le_succ _) (fun h hh => ⟨hsize ▸ Nat.lt_succ_of_lt hh.1, ?_⟩) rfl
    (fun _ => rfl) fun _ => rfl
  rw [guardValid, guard_addGuard, if_neg (Nat.ne_of_lt hh.1)]
  exact hh.2

/-- One layout has changed, but for its slots and the guard of its active bindings. -/
theorem wanes_modifyLayout (s : Store) (l : LayoutId) {f : Layout → Layout}
    (hactive : (f (s.layout l)).noActiveBinding = (s.layout l).noActiveBinding)
    (hslots : (f (s.layout l)).slots = (s.layout l).slots) : s.Wanes (s.modifyLayout l f) :=
  .of_slots le_rfl (fun _ h => h) Array.size_modify
    (fun k => layout_modifyLayout_congr s Layout.noActiveBinding l k f hactive)
    fun k => layout_modifyLayout_congr s Layout.slots l k f hslots

/-- A slot has changed, but for what it keeps. -/
theorem wanes_modifySlot (s : Store) (l : LayoutId) (i : Nat) {f : SlotInfo → SlotInfo}
    (hname : ∀ info, (f info).name = info.name)
    (hf : ∀ info, s.slot? l i = some info → info.Keeps (f info)) : s.Wanes (s.modifySlot l i f) := by
  have hold : ∀ k j info', (s.modifySlot l i f).slot? k j = some info' →
      ∃ info, s.slot? k j = some info ∧ info.Keeps info' := by
    intro k j info' h
    rw [slot?_modifySlot] at h
    split at h
    · rename_i hkj
      obtain ⟨rfl, rfl⟩ := hkj
      obtain ⟨info, hslot, rfl⟩ := Option.map_eq_some_iff.1 h
      exact ⟨info, hslot, hf info hslot⟩
    · exact ⟨info', h, .refl info'⟩
  have hactive : ∀ k, ((s.modifySlot l i f).layout k).noActiveBinding = (s.layout k).noActiveBinding :=
    fun k => layout_modifyLayout_congr s Layout.noActiveBinding l k _ rfl
  have halloc : ∀ k, (s.modifySlot l i f).Allocated (.layout k) ↔ s.Allocated (.layout k) :=
    fun k => Leads.allocated_modifyLayout s l _ (.layout k)
  have hindex : ∀ k n, ((s.modifySlot l i f).layout k).slotIndex? n = (s.layout k).slotIndex? n := by
    intro k n
    rw [Layout.slotIndex?_eq, Layout.slotIndex?_eq, modifySlot, layout_modifyLayout]
    split
    · rename_i hk
      rw [Layout.identifiers_modifySlot _ i hname, hk.1]
    · rfl
  constructor
  case size => exact le_rfl
  case fallen => exact fun _ h => h
  case layouts => exact fun k hk => ⟨(halloc k).2 hk, hactive k⟩
  case slots =>
    intro k j info h
    rw [slot?_modifySlot]
    split
    · rename_i hkj
      obtain ⟨rfl, rfl⟩ := hkj
      exact ⟨f info, by rw [h]; rfl, hf info h⟩
    · exact ⟨info, h, .refl info⟩
  case furnished =>
    intro hfurnished
    constructor
    case own =>
      intro k hk
      have hown : ((s.modifySlot l i f).layout k).ownGuards = (s.layout k).ownGuards :=
        layout_modifyLayout_congr s Layout.ownGuards l k _ (Layout.ownGuards_modifySlot hf)
      rw [hown]
      exact hfurnished.own k ((halloc k).1 hk)
    case named =>
      intro k j info' h
      obtain ⟨info, hslot, hkeeps⟩ := hold k j info' h
      rw [hindex, hkeeps.name]
      exact hfurnished.named k j info hslot

/-- A slot whose stable value is replaced was tracked. -/
theorem wanes_recordWrite (s : Store) (l : LayoutId) (i : Nat) (v : Option Value) :
    s.Wanes ((recordWrite l i v).run s).2 := by
  rw [recordWrite_run]
  cases hslot : s.slot? l i with
  | none => exact .refl s
  | some info =>
      dsimp only
      cases ht : info.stable with
      | none => exact .refl s
      | some t =>
          dsimp only
          have hinvalid : s.Wanes (s.invalidateStable t) := .of_eq rfl rfl
          have hkept : ∀ info', s.slot? l i = some info' → info'.stable ≠ none := by
            intro info' h hnone
            obtain rfl := Option.some.inj (hslot.symm.trans h)
            exact absurd (ht.symm.trans hnone) (Option.some_ne_none t)
          split
          · exact .refl s
          · unfold replaceStable
            dsimp only
            split
            · have hadd : (s.invalidateStable t).Wanes ((s.invalidateStable t).addStable info.label v) :=
                .of_eq rfl rfl
              refine (hinvalid.trans hadd).trans (wanes_modifySlot _ l i (fun _ => rfl) fun info' h => ?_)
              exact ⟨rfl, rfl, rfl, rfl, fun hnone => absurd hnone (hkept info' h)⟩
            · refine hinvalid.trans (wanes_modifySlot _ l i (fun _ => rfl) fun _ _ => ?_)
              exact ⟨rfl, rfl, rfl, rfl, fun _ => rfl⟩

theorem wanes_emptied (s : Store) (l : LayoutId) (i n : Nat) : s.Wanes (s.emptied l i n) := by
  induction n generalizing s i with
  | zero => exact .refl s
  | succ n ih =>
      rw [emptied_succ]
      exact (wanes_recordWrite s l i none).trans (ih _ (i + 1))

theorem wanes_noteWrite (s : Store) (info : SlotInfo) (nonLocal irregular : Bool) :
    s.Wanes (s.noteWrite info nonLocal irregular) := by
  unfold noteWrite
  split
  · exact wanes_invalidate s _
  · exact .refl s

/-- The slots of a layout to which one has been added. -/
theorem slot?_addSlot (s : Store) (l k : LayoutId) (new : SlotInfo) (j : Nat) :
    (s.modifyLayout l (·.addSlot new)).slot? k j
      = if k = l ∧ s.Allocated (.layout l) ∧ j = (s.layout l).slots.size then some new
        else s.slot? k j := by
  rw [slot?, layout_modifyLayout]
  by_cases hk : k = l ∧ s.Allocated (.layout l)
  · rw [if_pos hk, hk.1, Layout.addSlot, Array.getElem?_push]
    simp only [true_and, hk.2]
    rfl
  · rw [if_neg hk, if_neg fun hc => hk ⟨hc.1, hc.2.1⟩]
    rfl

/-- A slot that is added for a name that has none is the last one, and the slot of that name. -/
theorem slotIndex?_addSlot_self {x : Layout} {new : SlotInfo} (h : x.slotIndex? new.name = none) :
    (x.addSlot new).slotIndex? new.name = some x.slots.size := by
  rw [Layout.slotIndex?_eq] at h ⊢
  rw [Layout.identifiers_addSlot, List.findIdx?_append, h]
  simp [Layout.identifiers]

/-- A slot is added for a name that has none, with guards that have just been made. -/
theorem Wanes.addSlot {s₀ : Store} (h : s₀.Wanes s) (l : LayoutId) {new : SlotInfo}
    (hsame : ∀ k, s.layout k = s₀.layout k) (halloc₀ : ∀ k, s.Allocated (.layout k) → s₀.Allocated (.layout k))
    (hfirst : s₀.guards.size ≤ new.notModifiedNonLocally.index)
    (hsecond : new.notModifiedNonLocally.index < new.noFanOut.index) (hguard : new.noFanOut.index < s.guards.size)
    (hnew : (s.layout l).slotIndex? new.name = none) : s₀.Wanes (s.modifyLayout l (·.addSlot new)) := by
  have hactive : ∀ k, ((s.modifyLayout l (·.addSlot new)).layout k).noActiveBinding
      = (s.layout k).noActiveBinding := fun k =>
    layout_modifyLayout_congr s Layout.noActiveBinding l k _ rfl
  have halloc : ∀ k, (s.modifyLayout l (·.addSlot new)).Allocated (.layout k) ↔ s.Allocated (.layout k) :=
    fun k => Leads.allocated_modifyLayout s l _ (.layout k)
  have hslot₀ : ∀ k j, s.slot? k j = s₀.slot? k j := fun k j => by rw [slot?, hsame, ← slot?]
  constructor
  case size => exact h.size
  case fallen => exact h.fallen
  case layouts =>
    intro k hk
    obtain ⟨hk', hsame'⟩ := h.layouts k hk
    exact ⟨(halloc k).2 hk', (hactive k).trans hsame'⟩
  case slots =>
    intro k j info h
    rw [← hslot₀] at h
    refine ⟨info, ?_, .refl info⟩
    rw [slot?_addSlot, if_neg]
    · exact h
    · rintro ⟨rfl, -, rfl⟩
      exact absurd (Array.getElem?_eq_some_iff.1 h).1 (Nat.lt_irrefl _)
  case furnished =>
    intro hf₀
    have hf := h.furnished hf₀
    constructor
    case own =>
      intro k hk
      obtain ⟨hnodup, hmade⟩ := hf.own k ((halloc k).1 hk)
      rw [layout_modifyLayout]
      split
      · rename_i hkl
        obtain ⟨rfl, hl⟩ := hkl
        rw [Layout.ownGuards_addSlot]
        -- The guards of the new slot were made after all others of the layout.
        have hbefore : ∀ g ∈ (s.layout k).ownGuards, g.index < s₀.guards.size := by
          rw [hsame]
          exact (hf₀.own k (halloc₀ k hl)).2
        constructor
        · refine List.nodup_append.2 ⟨hnodup, ?_, fun g hg g' hg' heq => ?_⟩
          · have hne : new.notModifiedNonLocally ≠ new.noFanOut := fun heq => by
              rw [heq] at hsecond
              exact absurd hsecond (Nat.lt_irrefl _)
            simp [SlotInfo.guards, hne]
          · have hlt := hbefore g hg
            simp only [SlotInfo.guards, List.mem_cons, List.not_mem_nil, or_false] at hg'
            rcases hg' with hg' | hg' <;> rw [heq, hg'] at hlt <;> omega
        · intro g hg
          rcases List.mem_append.1 hg with hg | hg
          · exact hmade g hg
          · simp only [SlotInfo.guards, List.mem_cons, List.not_mem_nil, or_false] at hg
            show g.index < s.guards.size
            rcases hg with rfl | rfl <;> omega
      · exact ⟨hnodup, hmade⟩
    case named =>
      intro k j info h
      rw [slot?_addSlot] at h
      rw [layout_modifyLayout]
      split at h
      · rename_i hkj
        obtain ⟨rfl, hl, rfl⟩ := hkj
        obtain rfl := Option.some.inj h
        rw [if_pos ⟨rfl, hl⟩]
        exact slotIndex?_addSlot_self hnew
      · have hindex := hf.named k j info h
        split
        · rename_i hk
          obtain ⟨rfl, -⟩ := hk
          -- The name has a slot, so that it is not the one that is added.
          have hother : info.name ≠ new.name := by
            intro hsame
            rw [hsame, hnew] at hindex
            cases hindex
          rw [Layout.slotIndex?_addSlot _ new hother, hindex]
        · exact hindex

theorem wanes_widened (s : Store) (l : LayoutId) {n : Name} (hn : (s.layout l).slotIndex? n = none) :
    s.Wanes (s.widened l n) := by
  unfold widened
  dsimp only
  have hbase : ∀ label : String, s.Wanes (if (s.layout l).kind.isSingleton then s.addStable label none else s)
      ∧ (if (s.layout l).kind.isSingleton then s.addStable label none else s : Store).layouts = s.layouts
      ∧ (if (s.layout l).kind.isSingleton then s.addStable label none else s : Store).guards = s.guards := by
    intro label
    split
    · exact ⟨.of_eq rfl rfl, rfl, rfl⟩
    · exact ⟨.refl s, rfl, rfl⟩
  obtain ⟨hwanes, hlayouts, hguards⟩ :=
    hbase ((s.layout l).label ++ "[" ++ toString (s.layout l).slots.size ++ "]")
  generalize (if (s.layout l).kind.isSingleton then _ else s : Store) = s₁ at hwanes hlayouts hguards ⊢
  have hsame : ∀ k, s₁.layout k = s.layout k := fun k => by rw [layout, hlayouts, ← layout]
  refine ((hwanes.trans (wanes_addGuard s₁ _)).trans (wanes_addGuard _ _)).addSlot l hsame (fun k hk => ?_) ?_ ?_ ?_ ?_
  · have hk : k.index < s₁.layouts.size := hk
    rwa [hlayouts] at hk
  · show s.guards.size ≤ s₁.guards.size
    rw [hguards]
  · exact Nat.lt_of_lt_of_eq (Nat.lt_succ_self _) (Array.size_push _).symm
  · exact Nat.lt_of_lt_of_eq (Nat.lt_succ_self _) (Array.size_push _).symm
  · exact (congrArg (·.slotIndex? n) (hsame l)).trans hn

/-- A layout without slots is added, with a guard for its active bindings that has been made. -/
theorem wanes_addLayout (s : Store) {x : Layout} (hactive : x.noActiveBinding.index < s.guards.size)
    (hslots : x.slots = #[]) : s.Wanes (s.addLayout x) := by
  have hsize : (s.addLayout x).layouts.size = s.layouts.size + 1 := Array.size_push _
  have hold : ∀ k, s.Allocated (.layout k) → (s.addLayout x).layout k = s.layout k := by
    intro k hk
    rw [layout_addLayout, if_neg (Nat.ne_of_lt hk)]
  -- What is found in a slot was found there, for the new layout has none.
  have hslot : ∀ k j info, (s.addLayout x).slot? k j = some info →
      s.slot? k j = some info ∧ (s.addLayout x).layout k = s.layout k := by
    intro k j info h
    rw [slot?, layout_addLayout] at h
    rw [layout_addLayout]
    split at h
    · simp [hslots] at h
    · rename_i hk
      exact ⟨h, if_neg hk⟩
  constructor
  case size => exact le_rfl
  case fallen => exact fun _ h => h
  case layouts =>
    intro k hk
    rw [hold k hk]
    exact ⟨Nat.lt_of_lt_of_eq (Nat.lt_succ_of_lt hk) hsize.symm, rfl⟩
  case slots =>
    intro k j info h
    refine ⟨info, ?_, .refl info⟩
    rw [slot?, hold k (allocated_of_slot? h), ← slot?]
    exact h
  case furnished =>
    intro hf
    constructor
    case own =>
      intro k hk
      rw [layout_addLayout]
      split
      · rw [Layout.ownGuards, hslots]
        exact ⟨List.nodup_singleton _, fun g hg => List.mem_singleton.1 hg ▸ hactive⟩
      · rename_i hne
        apply hf.own k
        have hk : k.index < s.layouts.size + 1 := Nat.lt_of_lt_of_eq hk hsize
        show k.index < s.layouts.size
        omega
    case named =>
      intro k j info h
      obtain ⟨hslot, hlayout⟩ := hslot k j info h
      rw [hlayout]
      exact hf.named k j info hslot

/-- A layout is made with a guard for its active bindings, and without slots. -/
theorem wanes_newLayout (s : Store) (label : String) (kind : LayoutKind) (policy : BindingPolicy) :
    s.Wanes ((newLayout label kind policy).run s).2 := by
  rw [newLayout_run]
  have hfirst := wanes_addGuard s (label ++ " has no active bindings")
  have hsecond := wanes_addGuard (s.addGuard (label ++ " has no active bindings")) (label ++ " enclosing")
  refine (hfirst.trans hsecond).trans (wanes_addLayout _ ?_ rfl)
  have hguard : s.guards.size < (s.addGuard (label ++ " has no active bindings")).guards.size :=
    Nat.lt_of_lt_of_eq (Nat.lt_succ_self _) (Array.size_push _).symm
  exact Nat.lt_of_lt_of_le hguard hsecond.size

/-! ## Links and sweeps -/

theorem Swept.wanes (h : s.Swept s₁) : s.Wanes s₁ :=
  .of_slots (by rw [h.eq]) (fun g hg => by rw [Fallen, guardValid, guard, h.eq]; exact hg) h.size
    (fun k => by rw [(h.layout k).eq]) fun k => (h.layout k).slots

theorem Notes.wanes (h : s.Notes s₁) : s.Wanes s₁ :=
  .of_slots (by rw [h.rest]) (fun g hg => by rw [Fallen, guardValid, guard, h.rest]; exact hg) h.size
    (fun k => by rw [h.layout]) fun k => by rw [h.layout]

theorem wanes_relinked (s : Store) (l : LayoutId) (parent : Option LayoutId) :
    s.Wanes (s.relinked l parent) :=
  ((wanes_invalidate s _).trans (wanes_addGuard _ _)).trans (wanes_modifyLayout _ l rfl rfl)

theorem wanes_addChild (s : Store) (p l : LayoutId) : s.Wanes (s.addChild p l) :=
  wanes_modifyLayout s p (addChild_part _ (fun _ _ => rfl) _ l) (addChild_part _ (fun _ _ => rfl) _ l)

theorem wanes_removeChild (s : Store) (p l : LayoutId) : s.Wanes (s.removeChild p l) :=
  wanes_modifyLayout s p rfl rfl

theorem wanes_rehung (s : Store) (l : LayoutId) (parent : Option LayoutId) : s.Wanes (s.rehung l parent) := by
  have hunhooked : s.Wanes (s.unhooked l parent) := by
    unfold unhooked
    split
    · exact (wanes_relinked s l parent).trans (wanes_removeChild _ _ l)
    · exact wanes_relinked s l parent
  unfold rehung
  split
  · exact hunhooked.trans (wanes_addChild _ _ l)
  · exact hunhooked

theorem wanes_spliced (s : Store) (l inserted old : LayoutId) : s.Wanes (s.spliced l inserted old) :=
  ((((wanes_relinked s inserted _).trans (wanes_relinked _ l _)).trans (wanes_addChild _ inserted l)).trans
    (wanes_removeChild _ old l)).trans (wanes_addChild _ old inserted)

theorem wanes_bypassed (s : Store) (l old : LayoutId) (grandparent : Option LayoutId) :
    s.Wanes (s.bypassed l old grandparent) := by
  have hremoved := ((wanes_relinked s l grandparent).trans (wanes_relinked _ old none)).trans
    (wanes_removeChild _ old l)
  unfold bypassed
  dsimp only
  split
  · exact hremoved
  · exact (hremoved.trans (wanes_removeChild _ _ old)).trans (wanes_addChild _ _ l)

theorem wanes_initializeEnclosing (s : Store) (l : LayoutId) (parent : Option LayoutId) :
    s.Wanes ((initializeEnclosing l parent).run.run s).2 := by
  rw [initializeEnclosing_run]
  split
  · exact (wanes_relinked s l _).trans (wanes_addChild _ _ l)
  · split <;> exact .refl s

end Store

end ScopeCall
