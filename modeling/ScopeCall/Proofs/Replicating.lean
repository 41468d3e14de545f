import Mathlib.Data.Option.Basic
import ScopeCall.Proofs.Isolating
import ScopeCall.Proofs.Separating

/-!
# `ScopeCall.Proofs.Replicating` — what contexts see of a slot that has been prepared

Preparing a slot for contexts shows them what was there before, or nothing, and leaves what the others see.
Each context that starts with a list gets a copy of its own: the lists inside it have been made for this context
after all others, so none of them lies inside what another context sees.

## Contents
- **Lists made later.** What is enclosed stays enclosed; `Heap.Apart`.
- **Replicating.** What `replicateInto` shows to the contexts that are listed, and to others.
- **Preparing a slot.** `Store.Prepares` and the main result `fanOutSlot_prepares`.
-/

namespace ScopeCall

namespace Heap

variable {P Q : Ref → Prop} {h h' h'' : Heap} {grouped : Prop} {c v w : Value} {l : ListId} {n : Nat}

/-! ## Lists made later -/

/-- No list lies inside both values. -/
def Apart (h : Heap) (v w : Value) : Prop := ∀ l, h.Contains v (.list l) → ¬ h.Contains w (.list l)

theorem Apart.symm (hvw : h.Apart v w) : h.Apart w v := fun l hw hv => hvw l hv hw

/-- New lists and what was enclosed before are enclosed together. -/
theorem Grows.encloses (g : h.Grows P h') (hP : h.Encloses P) :
    h'.Encloses fun r => P r ∨ h.Made h' r := by
  constructor
  · rintro l (hl | hl)
    · obtain ⟨hlt, hitems⟩ := hP.closed l hl
      refine ⟨Nat.lt_of_lt_of_le hlt g.size, fun v hv r hr => Or.inl (hitems v ?_ r hr)⟩
      rwa [g.old l hlt] at hv
    · exact ⟨hl.2, g.fresh l hl.1⟩
  · rintro k (hk | hk) e he r hr
    · rw [entries, g.groups] at he
      exact Or.inl (hP.groups k hk e he r hr)
    · exact hk.elim

theorem Built.grow (hv : h.Built grouped v) (g : h.Grows P h') : h'.Built grouped v := by
  induction hv with
  | plain hrefs => exact .plain hrefs
  | list hl _ ih =>
      refine .list (Nat.lt_of_lt_of_le hl g.size) fun w hw => ih w ?_
      rwa [g.old _ hl] at hw
  | group hgrouped _ ih =>
      refine .group hgrouped fun e he => ih e ?_
      rwa [entries, g.groups] at he

/-- A copy is equal to the original, also after more lists have been made. -/
theorem equal_copyForContext (hP : h.Closed P) (hv : ∀ r ∈ v.refs, P r) (hall : h.Grows P h')
    (g : ((copyForContext v).run h).2.Grows Q h') : h'.equal ((copyForContext v).run h).1 v = true := by
  have hcopy : h.Copied ((copyForContext v).run h).2 h.depthBound ((copyForContext v).run h).1 v :=
    copied_copyTo hP hv (.refl P h)
  exact (hcopy.mono g).equalTo hP hv hall hall.depthBound_le

/-- The lists inside a copy of a value without groups have all been made for it. -/
theorem made_of_copyForContext (hP : h.Encloses P) (hv : ∀ r ∈ v.refs, P r) (hbuilt : h.Built False v)
    (hl : ((copyForContext v).run h).2.Contains ((copyForContext v).run h).1 (.list l)) :
    h.Made ((copyForContext v).run h).2 (.list l) := by
  have hcopy : h.Copied ((copyForContext v).run h).2 h.depthBound ((copyForContext v).run h).1 v :=
    copied_copyTo hP.closed hv (.refl P h)
  have hfits : h.Fits h.depthBound v := hbuilt.fits.mono (by simp only [depthBound]; omega)
  exact (hcopy.list_cases hP hv (yields_copyForContext hv h hP.closed).1 hfits hl).resolve_right
    hbuilt.not_sharedList

/-- A value without groups that is no list has no list inside it. -/
theorem Built.not_contains_list (hbuilt : h.Built False v) (hsafe : v.isContextUnsafe = false) :
    ¬ h.Contains v (.list l) := by
  have hplain : ∀ k, v ≠ .list k := fun k hk => by simp [hk, Value.isContextUnsafe] at hsafe
  exact fun hl => hbuilt.not_sharedList (exists_group_of_plain hplain hl)

/-- A copy of a value without groups has no list in common with what was there before it was made. -/
theorem apart_copyForContext (hP : h.Encloses P) (hv : ∀ r ∈ v.refs, P r) (hbuilt : h.Built False v)
    (hw : ∀ r ∈ w.refs, P r)
    (g : ((copyForContext v).run h).2.Grows (fun r => P r ∨ h.Made ((copyForContext v).run h).2 r) h') :
    h'.Apart ((copyForContext v).run h).1 w := by
  intro l hl hl'
  obtain ⟨gcopy, hcopy⟩ := yields_copyForContext hv h hP.closed
  have hP' := gcopy.encloses hP
  have hmade := made_of_copyForContext hP hv hbuilt ((g.contains_iff hP' hcopy).1 hl)
  have hold : l.index < h.lists.size := hP.allocated hw
    ((gcopy.contains_iff hP hw).1 ((g.contains_iff hP' fun r hr => Or.inl (hw r hr)).1 hl'))
  exact absurd hold (Nat.not_lt.2 hmade.1)

end Heap

theorem ContextValues.holds_of_read {vs : ContextValues} {d : Nat} {v : Value} (hv : vs.read d = some v)
    {r : Ref} (hr : r ∈ v.refs) : vs.Holds r :=
  ⟨v, Array.mem_toList_iff.2 (Array.mem_of_getElem? (Option.join_eq_some_iff.1 hv)), hr⟩

namespace Store

open Heap

/-! ## Replicating -/

section

variable {P : Ref → Prop} {h : Heap} {v : Option Value} {vs : ContextValues} {context d d' : Nat}
  {contexts rest : List Nat}

theorem replicateInto_cons_run (v : Option Value) (vs : ContextValues) (context : Nat) (rest : List Nat)
    (h : Heap) : (replicateInto v vs (context :: rest)).run h =
      (replicateInto v (vs.write context ((v.mapM copyForContext).run h).1) rest).run
        ((v.mapM copyForContext).run h).2 :=
  rfl

/-- Contexts that are not listed see what they saw. -/
theorem replicateInto_unlisted (hd : d ∉ contexts) :
    ((replicateInto v vs contexts).run h).1.read d = vs.read d := by
  induction contexts generalizing vs h with
  | nil => rfl
  | cons context rest ih =>
      obtain ⟨hne, hrest⟩ := not_or.1 (mt List.mem_cons.2 hd)
      rw [replicateInto_cons_run, ih hrest, ContextValues.read_write, if_neg hne]

/-- The first step leaves entries that are enclosed. -/
theorem holds_first (hv : ∀ w, v = some w → ∀ r ∈ w.refs, P r) (hP : h.Closed P)
    (hvs : ∀ r, vs.Holds r → P r) (context : Nat) : ∀ r,
    (vs.write context ((v.mapM copyForContext).run h).1).Holds r →
      P r ∨ h.Made ((v.mapM copyForContext).run h).2 r := by
  intro r hr
  rcases hr.of_write with hr | hr
  · exact Or.inl (hvs r hr)
  · exact (yields_copies hv h hP).2 r hr

/-- Every context that is listed sees a value equal to the one that is replicated. -/
theorem replicateInto_listed (hP : h.Encloses P) (hv : ∀ w, v = some w → ∀ r ∈ w.refs, P r)
    (hvs : ∀ r, vs.Holds r → P r) (hd : d ∈ contexts) :
    Option.Rel (fun c w => ((replicateInto v vs contexts).run h).2.equal c w = true)
      (((replicateInto v vs contexts).run h).1.read d) v := by
  induction contexts generalizing vs h P with
  | nil => cases hd
  | cons context rest ih =>
      have g := (yields_copies hv h hP.closed).1
      have hfirst := holds_first hv hP.closed hvs context
      rw [replicateInto_cons_run]
      -- A context may be listed more than once: it sees the copy that was made last.
      by_cases hrest : d ∈ rest
      · exact ih (g.encloses hP) (fun w hw r hr => Or.inl (hv w hw r hr)) hfirst hrest
      · obtain rfl : d = context := (List.mem_cons.1 hd).resolve_right hrest
        rw [replicateInto_unlisted hrest, ContextValues.read_write, if_pos rfl]
        cases v with
        | none => exact .none
        | some w =>
            have hall := (yields_replicateInto hv g hP.closed hfirst rest).1
            have hlater := (yields_replicateInto (fun w hw r hr => Or.inl (hv w hw r hr)) (.refl _ _)
              (g.encloses hP).closed (fun r hr => Or.inl (hfirst r hr)) rest).1
            exact .some (equal_copyForContext hP.closed (hv w rfl) hall hlater)

/-- If there are no groups in the value that is replicated, the lists that a listed context sees are its own. -/
theorem replicateInto_apart (hP : h.Encloses P) (hv : ∀ w, v = some w → ∀ r ∈ w.refs, P r)
    (hbuilt : ∀ w, v = some w → h.Built False w) (hvs : ∀ r, vs.Holds r → P r) (hd : d ∈ contexts)
    (hne : d' ≠ d) {x y : Value} (hx : ((replicateInto v vs contexts).run h).1.read d = some x)
    (hy : ((replicateInto v vs contexts).run h).1.read d' = some y) :
    ((replicateInto v vs contexts).run h).2.Apart x y := by
  induction contexts generalizing vs h P d d' x y with
  | nil => cases hd
  | cons context rest ih =>
      have g := (yields_copies hv h hP.closed).1
      have hP₁ := g.encloses hP
      have hv₁ : ∀ w, v = some w → ∀ r ∈ w.refs, P r ∨ h.Made ((v.mapM copyForContext).run h).2 r :=
        fun w hw r hr => Or.inl (hv w hw r hr)
      have hbuilt₁ := fun w hw => (hbuilt w hw).grow g
      have hfirst := holds_first hv hP.closed hvs context
      rw [replicateInto_cons_run] at hx hy ⊢
      by_cases hrest : d ∈ rest
      · exact ih hP₁ hv₁ hbuilt₁ hfirst hrest hne hx hy
      by_cases hrest' : d' ∈ rest
      · exact (ih hP₁ hv₁ hbuilt₁ hfirst hrest' hne.symm hy hx).symm
      -- The context has been given its copy in the first step, and the other one sees what it saw.
      obtain rfl : d = context := (List.mem_cons.1 hd).resolve_right hrest
      rw [replicateInto_unlisted hrest, ContextValues.read_write, if_pos rfl] at hx
      rw [replicateInto_unlisted hrest', ContextValues.read_write, if_neg hne] at hy
      have hlater := (yields_replicateInto hv₁ (.refl _ _) hP₁.closed (fun r hr => Or.inl (hfirst r hr)) rest).1
      cases v with
      | none => cases hx
      | some w =>
          obtain rfl : ((copyForContext w).run h).1 = x := Option.some.inj hx
          exact apart_copyForContext hP (hv w rfl) (hbuilt w rfl)
            (fun r hr => hvs r (ContextValues.holds_of_read hy hr)) hlater

end

/-! ## Preparing a slot -/

variable {s : Store} {a : ActivationId} {i : Nat} {info : SlotInfo} {contexts : List Nat} {replicate : Bool}

/-- Whether preparing a slot leaves it alone: it may not be converted, or it is tracked, and what it holds may be
    shared by contexts that start with it. -/
def leftShared (s : Store) (a : ActivationId) (slot : Nat) (info : SlotInfo) (replicate : Bool) : Bool :=
  !info.mayFanOut || (info.stable.isSome && !s.copiesSlot a slot info && replicate)

/-- Preparing a slot that exists, of an activation that is the only one of its layout, is answered. -/
theorem fanOutSlot_answer (hkind : (s.layout (s.layoutOf a)).kind.isSingleton = true)
    (hslot : s.slot? (s.layoutOf a) i = some info) :
    (fanOutSlot a i contexts replicate).run.run s = (.ok (!s.leftShared a i info replicate),
      ((fanOutSlot a i contexts replicate).run.run s).2) := by
  refine Prod.ext ?_ rfl
  have hcond : ((info.stable.map fun t => (s.stable t).value).isSome) = info.stable.isSome := by
    cases info.stable <;> rfl
  rw [fanOutSlot, requireSingleton_bind_run, if_pos hkind, requireSlot_bind_run, hslot]
  dsimp only
  rw [run_get_bind, leftShared, copiesSlot, ← hcond]
  split
  · rename_i hleft
    rw [hleft]
    rfl
  · rename_i hleft
    rw [Bool.eq_false_iff.2 hleft]
    rfl

/-- The entries of a slot that is converted. -/
theorem preparedEntries_first (hfanned : s.isFannedOut a i = false) :
    s.preparedEntries a i info contexts replicate =
      let v := s.readIn a i primordial
      let room := s.contextRoom (contexts.foldl max primordial)
      match replicate, s.copiesSlot a i info with
      | true, true  => (replicateInto v (Array.replicate room none) (List.range room)).run s.heap
      | true, false => (Array.replicate room v, s.heap)
      | false, _    => (ContextValues.write (Array.replicate room none) primordial v, s.heap) := by
  obtain ⟨w, hw⟩ := SlotContent.eq_ofOption hfanned
  rw [preparedEntries, readIn, hw]
  cases w <;> cases replicate <;> cases s.copiesSlot a i info <;> rfl

/-- The entries of a slot that is extended. -/
theorem preparedEntries_extended {vs : ContextValues} (hc : s.content a i = .fanOut vs) :
    s.preparedEntries a i info contexts replicate =
      let room := s.contextRoom (contexts.foldl max primordial)
      if replicate then (replicateInto (s.readIn a i primordial) (vs.grow room) contexts).run s.heap
      else (vs.grow room, s.heap) := by
  rw [preparedEntries, readIn, hc]
  cases replicate <;> rfl

theorem exists_fanOut (hfanned : s.isFannedOut a i = true) : ∃ vs, s.content a i = .fanOut vs := by
  rw [isFannedOut] at hfanned
  cases hc : s.content a i with
  | fanOut vs => exact ⟨vs, rfl⟩
  | empty | value v => simp [hc, SlotContent.isFanOut] at hfanned

/-- Before a slot is converted all contexts see the same. -/
theorem readIn_of_not_isFannedOut (hfanned : s.isFannedOut a i = false) (d : Nat) :
    s.readIn a i d = s.readIn a i primordial := by
  obtain ⟨w, hw⟩ := SlotContent.eq_ofOption hfanned
  rw [readIn, readIn, hw]
  cases w <;> rfl

theorem read_replicate (room : Nat) (v : Option Value) (d : Nat) :
    ContextValues.read (Array.replicate room v) d = if d < room then v else none := by
  rw [ContextValues.read, Array.getElem?_replicate]
  split <;> rfl

/-- Both see nothing, or values that are equal. -/
def SeeEqual (h : Heap) : Option Value → Option Value → Prop := Option.Rel fun v w => h.equal v w = true

theorem seeEqual_refl (h : Heap) (v : Option Value) : SeeEqual h v v := by
  cases v with
  | none => exact .none
  | some v => exact .some (equalTo_refl h _ v)

/-- A value that is pushed onto a list inside `v` does not show in `w`. -/
def Unseen (s : Store) (v w : Value) : Prop :=
  ∀ l x, s.heap.Contains v (.list l) →
    ({ s with heap := s.heap.push l x } : Store).showValue w = s.showValue w

theorem unseen_of_apart {v w : Value} (hapart : s.heap.Apart v w) : s.Unseen v w :=
  fun l x hl => showValue_push s x (hapart l hl)

/-- What contexts see of a slot that has been converted, or extended to more contexts. -/
structure Prepares (s s' : Store) (a : ActivationId) (i : Nat) (contexts : List Nat) (replicate : Bool) :
    Prop where
  /-- A slot that is converted together with its value shows every context what it saw before. -/
  replicated : replicate = true → s.isFannedOut a i = false →
    ∀ d < s.contextRoom (contexts.foldl max primordial), SeeEqual s'.heap (s'.readIn a i d) (s.readIn a i d)
  /-- A slot that is extended together with its value shows the listed contexts what the first one saw. -/
  listed : replicate = true → s.isFannedOut a i = true →
    ∀ d ∈ contexts, SeeEqual s'.heap (s'.readIn a i d) (s.readIn a i primordial)
  unlisted : replicate = true → s.isFannedOut a i = true → ∀ d ∉ contexts, s'.readIn a i d = s.readIn a i d
  /-- Without its value, a slot that is converted keeps it for the first context alone. -/
  bare : replicate = false →
    ∀ d, s'.readIn a i d = if s.isFannedOut a i ∨ d = primordial then s.readIn a i d else none
  /-- The lists inside a value without groups are not shared. -/
  separated : replicate = true → ∀ v, s.readIn a i primordial = some v → s.heap.Built False v →
    ∀ d ∈ contexts, ∀ d', d' ≠ d → ∀ x y, s'.readIn a i d = some x → s'.readIn a i d' = some y →
      s'.heap.Apart x y ∧ s'.Unseen x y ∧ s'.Unseen y x

theorem encloses_live (hs : s.WellFormed) : s.heap.Encloses fun r => s.Live r :=
  ⟨closed_live hs, fun _ hg e he _ hr => hg.of_mem_refs (List.mem_flatMap.2 ⟨e, he, hr⟩)⟩

/-- What is in a slot that is not left alone. -/
theorem readIn_fanOutSlot (ha : s.Allocated (.activation a))
    (hkind : (s.layout (s.layoutOf a)).kind.isSingleton = true)
    (hslot : s.slot? (s.layoutOf a) i = some info) (hleft : s.leftShared a i info replicate = false)
    (contexts : List Nat) : ((fanOutSlot a i contexts replicate).run.run s).2.heap
        = (s.preparedEntries a i info contexts replicate).2
      ∧ ∀ d, ((fanOutSlot a i contexts replicate).run.run s).2.readIn a i d
        = (s.preparedEntries a i info contexts replicate).1.read d := by
  rw [leftShared] at hleft
  rw [fanOutSlot_run, if_pos hkind, hslot]
  dsimp only
  rw [if_neg (Bool.eq_false_iff.1 hleft)]
  refine ⟨rfl, fun d => readIn_replaced ?_ i d _⟩
  show a.index < (s.giveUpSharing (s.layoutOf a) i info).activations.size
  rw [activations_giveUpSharing]
  exact ha

section

variable (hs : s.WellFormed) (ha : s.Live (.activation a))

include hs ha

theorem live_of_readIn {w : Value} (hw : s.readIn a i primordial = some w) : ∀ r ∈ w.refs, s.Live r :=
  fun _ => ha.content hs (SlotContent.mem_values_readIn hw)

/-- A slot that is converted with its value: what contexts see is not shared. -/
theorem apart_of_first (hfanned : s.isFannedOut a i = false) {v : Value}
    (hval : s.readIn a i primordial = some v) (hbuilt : s.heap.Built False v) {d d' : Nat} (hne : d' ≠ d)
    {x y : Value} (hx : (s.preparedEntries a i info contexts true).1.read d = some x)
    (hy : (s.preparedEntries a i info contexts true).1.read d' = some y) :
    (s.preparedEntries a i info contexts true).2.Apart x y := by
  rw [preparedEntries_first hfanned, hval] at hx hy ⊢
  cases hcopies : s.copiesSlot a i info with
  | true =>
      rw [hcopies] at hx hy
      dsimp only at hx hy ⊢
      by_cases hd : d < s.contextRoom (contexts.foldl max primordial)
      · refine replicateInto_apart (encloses_live hs) ?_ ?_ (fun r hr => ?_) (List.mem_range.2 hd) hne hx hy
        · exact fun w hw => live_of_readIn hs ha (hval.trans hw)
        · exact fun w hw => Option.some.inj hw ▸ hbuilt
        · exact absurd hr (ContextValues.not_holds_replicate_none _ r)
      · rw [replicateInto_unlisted (mt List.mem_range.1 hd), read_replicate, if_neg hd] at hx
        cases hx
  | false =>
      -- All contexts see one value, which is no list then.
      rw [hcopies] at hx
      dsimp only at hx
      have hsafe : v.isContextUnsafe = false := by
        have hv : (s.content a i).readIn primordial = some v := hval
        rw [copiesSlot, hv, Bool.or_eq_false_iff] at hcopies
        exact hcopies.1
      rw [read_replicate] at hx
      obtain rfl : v = x := Option.some.inj (Option.ite_none_right_eq_some.1 hx).2
      exact fun l hl => absurd hl (hbuilt.not_contains_list hsafe)

/-- The first conversion of a slot. -/
theorem prepares_first (hfanned : s.isFannedOut a i = false) {s' : Store}
    (hheap : s'.heap = (s.preparedEntries a i info contexts replicate).2)
    (hreads : ∀ d, s'.readIn a i d = (s.preparedEntries a i info contexts replicate).1.read d) :
    s.Prepares s' a i contexts replicate := by
  constructor
  case replicated =>
    rintro rfl - d hd
    rw [hreads, hheap, preparedEntries_first hfanned, readIn_of_not_isFannedOut hfanned d]
    cases s.copiesSlot a i info with
    | true =>
        refine replicateInto_listed (encloses_live hs) (fun w hw => live_of_readIn hs ha hw) (fun r hr => ?_)
          (List.mem_range.2 hd)
        exact absurd hr (ContextValues.not_holds_replicate_none _ r)
    | false =>
        dsimp only
        rw [read_replicate, if_pos hd]
        exact seeEqual_refl _ _
  case listed =>
    intro _ hconverted
    exact absurd hconverted (Bool.eq_false_iff.1 hfanned)
  case unlisted =>
    intro _ hconverted
    exact absurd hconverted (Bool.eq_false_iff.1 hfanned)
  case bare =>
    rintro rfl d
    rw [hreads, preparedEntries_first hfanned, readIn_of_not_isFannedOut hfanned d]
    dsimp only
    rw [ContextValues.read_write, read_replicate, hfanned]
    simp
  case separated =>
    rintro rfl v hval hbuilt d - d' hne x y hx hy
    rw [hreads] at hx hy
    have hapart : s'.heap.Apart x y := hheap ▸ apart_of_first hs ha hfanned hval hbuilt hne hx hy
    exact ⟨hapart, unseen_of_apart hapart, unseen_of_apart hapart.symm⟩

/-- A slot that has been converted before is extended. -/
theorem prepares_extended (hfanned : s.isFannedOut a i = true) {s' : Store}
    (hheap : s'.heap = (s.preparedEntries a i info contexts replicate).2)
    (hreads : ∀ d, s'.readIn a i d = (s.preparedEntries a i info contexts replicate).1.read d) :
    s.Prepares s' a i contexts replicate := by
  obtain ⟨vs, hc⟩ := exists_fanOut hfanned
  have hread : ∀ d, s.readIn a i d = vs.read d := fun d => by
    rw [readIn, hc]
    rfl
  have hgrow : ∀ room r, (vs.grow room).Holds r → s.Live r := fun room r hr => by
    obtain ⟨w, hw, hr⟩ := hr.of_grow
    refine ha.content hs (i := i) (v := w) ?_ hr
    rw [hc]
    exact SlotContent.mem_values_fanOut.2 hw
  rw [preparedEntries_extended hc] at hheap hreads
  dsimp only at hheap hreads
  constructor
  case replicated =>
    intro _ hfirst
    exact absurd hfanned (Bool.eq_false_iff.1 hfirst)
  case listed =>
    rintro rfl - d hd
    rw [hreads, hheap, if_pos rfl]
    exact replicateInto_listed (encloses_live hs) (fun w hw => live_of_readIn hs ha hw) (hgrow _) hd
  case unlisted =>
    rintro rfl - d hd
    rw [hreads, if_pos rfl, replicateInto_unlisted hd, ContextValues.read_grow, hread]
  case bare =>
    rintro rfl d
    rw [hreads, if_pos (Or.inl hfanned), if_neg Bool.false_ne_true, hread]
    exact vs.read_grow _ d
  case separated =>
    rintro rfl v hval hbuilt d hd d' hne x y hx hy
    rw [hreads, if_pos rfl] at hx hy
    have hapart : s'.heap.Apart x y := by
      rw [hheap, if_pos rfl]
      exact replicateInto_apart (encloses_live hs) (fun w hw => live_of_readIn hs ha hw)
        (fun w hw => Option.some.inj (hval.symm.trans hw) ▸ hbuilt) (hgrow _) hd hne hx hy
    exact ⟨hapart, unseen_of_apart hapart, unseen_of_apart hapart.symm⟩

end

/-- **Replicating shows every context what was there before.** Preparing a slot for contexts is answered. If the slot
    is left alone nothing has changed, and in the other case each context sees what it has to. -/
theorem fanOutSlot_prepares (hs : s.WellFormed) (ha : s.Live (.activation a))
    (hkind : (s.layout (s.layoutOf a)).kind.isSingleton = true)
    (hslot : s.slot? (s.layoutOf a) i = some info) (contexts : List Nat) (replicate : Bool) :
    let result := (fanOutSlot a i contexts replicate).run.run s
    result.1 = .ok (!s.leftShared a i info replicate)
      ∧ (s.leftShared a i info replicate = true → result.2 = s)
      ∧ (s.leftShared a i info replicate = false → s.Prepares result.2 a i contexts replicate) := by
  refine ⟨congrArg Prod.fst (fanOutSlot_answer hkind hslot), fun hleft => ?_, fun hleft => ?_⟩
  · rw [leftShared] at hleft
    rw [fanOutSlot_run, if_pos hkind, hslot]
    exact if_pos hleft
  · obtain ⟨hheap, hreads⟩ := readIn_fanOutSlot (ha.allocated hs) hkind hslot hleft contexts
    cases hfanned : s.isFannedOut a i with
    | true => exact prepares_extended hs ha hfanned hheap hreads
    | false => exact prepares_first hs ha hfanned hheap hreads

/-- A program may make a list of objects alive, and hold it. -/
theorem elsewhere_newList {items : Array Value} (hitems : ∀ v ∈ items, ∀ r ∈ v.refs, s.Live r) :
    s.Elsewhere (({ s with heap := ((newList items).run s.heap).2 } : Store).acquire
      [.list ⟨s.heap.lists.size⟩]) := by
  have hmade : s.heap.Made ((newList items).run s.heap).2 (.list ⟨s.heap.lists.size⟩) := by
    refine ⟨Nat.le_refl _, ?_⟩
    change _ < (s.heap.lists.push items).size
    simp
  have hleads := leads_heap ((Grows.refl (fun r => s.Live r) s.heap).newList items fun v hv r hr =>
    Or.inl (hitems v hv r hr))
  refine ⟨⟨hleads.grows, fun r hr => ?_, hleads.refs, hleads.weak⟩, rfl, rfl, rfl, rfl, rfl, rfl⟩
  rcases List.mem_append.1 hr with hr | hr
  · exact hleads.roots r (List.mem_append_left _ hr)
  · rcases List.mem_cons.1 hr with rfl | hr
    · exact within_of_made (Or.inr hmade)
    · exact hleads.roots r (List.mem_append_right _ hr)

/-- A list of a list, replicated to two contexts: what they see are two lists, and a value pushed onto a list inside
    one does not show in the other. -/
theorem separated_of_replicated :
    let ops : List Operation := [.newLayout "g" .singleton {}, .newScope ⟨0⟩ none 0,
      .define ⟨0⟩ ⟨2⟩ (.list ⟨1⟩), .registerContexts 2]
    let s₁ := ({ Store.new ["x"] with heap := ((newList #[.int 1]).run {}).2 } : Store).acquire [.list ⟨0⟩]
    let s₂ := ({ s₁ with heap := ((newList #[.list ⟨0⟩]).run s₁.heap).2 } : Store).acquire [.list ⟨1⟩]
    let s := ops.foldl Operation.perform s₂
    let s' := ((fanOutSlot ⟨0⟩ 0 [1, 2] true).run.run s).2
    s.WellFormed ∧ s.Live (.activation ⟨0⟩) ∧ (s.layout (s.layoutOf ⟨0⟩)).kind.isSingleton = true
      ∧ (s.slot? (s.layoutOf ⟨0⟩) 0).isSome ∧ s.heap.Built False (.list ⟨1⟩)
      ∧ ∃ x y, s'.readIn ⟨0⟩ 0 1 = some x ∧ s'.readIn ⟨0⟩ 0 2 = some y ∧ x ≠ y
        ∧ s'.heap.equal x (.list ⟨1⟩) = true ∧ s'.heap.Apart x y ∧ s'.Unseen x y := by
  intro ops s₁ s₂ s s'
  have hreachable : Reachable s := by
    have hempty : ∀ v ∈ #[Value.int 1], ∀ r ∈ v.refs, (Store.new ["x"]).Live r := by simp [Value.refs]
    have hheld : ∀ v ∈ #[Value.list ⟨0⟩], ∀ r ∈ v.refs, s₁.Live r := by
      have hroot : s₁.Live (.list ⟨0⟩) := live_of_mem_roots (by decide +kernel)
      simpa [Value.refs] using hroot
    have h₁ : Run (.new ["x"]) s₁ := .single (.elsewhere (elsewhere_newList hempty))
    have h₂ : Run s₁ s₂ := .single (.elsewhere (elsewhere_newList hheld))
    have h₃ : Run s₂ s := .of_allHeld (by decide +kernel)
    exact ⟨["x"], (h₁.trans h₂).trans h₃⟩
  have hs := hreachable.sound.wellFormed
  have ha : s.Live (.activation ⟨0⟩) := live_of_mem_roots (by decide +kernel)
  have hkind : (s.layout (s.layoutOf ⟨0⟩)).kind.isSingleton = true := by decide +kernel
  have hbuilt : s.heap.Built False (.list ⟨1⟩) := by
    have houter : ∀ v ∈ s.heap.items ⟨1⟩, v = .list ⟨0⟩ := by decide +kernel
    have hinner : ∀ v ∈ s.heap.items ⟨0⟩, v = .int 1 := by decide +kernel
    refine .list (by decide +kernel) fun v hv => houter v hv ▸ .list (by decide +kernel) fun w hw => ?_
    exact hinner w hw ▸ .plain rfl
  obtain ⟨info, hslot⟩ : ∃ info, s.slot? (s.layoutOf ⟨0⟩) 0 = some info :=
    Option.isSome_iff_exists.1 (by decide +kernel)
  obtain ⟨-, -, hprepares⟩ := fanOutSlot_prepares hs ha hkind hslot [1, 2] true
  have hleft : ∀ info, s.slot? (s.layoutOf ⟨0⟩) 0 = some info → s.leftShared ⟨0⟩ 0 info true = false := by
    decide +kernel
  have h : s.Prepares s' ⟨0⟩ 0 [1, 2] true := hprepares (hleft info hslot)
  have hx : s'.readIn ⟨0⟩ 0 1 = some (.list ⟨5⟩) := by decide +kernel
  have hy : s'.readIn ⟨0⟩ 0 2 = some (.list ⟨7⟩) := by decide +kernel
  have hequal := h.replicated rfl (by decide +kernel) 1 (by decide +kernel)
  obtain ⟨hapart, hunseen, -⟩ := h.separated rfl _ (by decide +kernel) hbuilt 1 (by decide) 2 (by decide) _ _ hx hy
  have hread : s.readIn ⟨0⟩ 0 1 = some (.list ⟨1⟩) := by decide +kernel
  rw [hx, hread] at hequal
  obtain ⟨hequal⟩ := hequal
  exact ⟨hs, ha, hkind, by decide +kernel, hbuilt, _, _, hx, hy, by decide, hequal, hapart,
    hunseen⟩

end Store

end ScopeCall
