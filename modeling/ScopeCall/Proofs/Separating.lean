import Mathlib.Data.Finset.Card
import Mathlib.Data.Finset.Range
import Mathlib.Logic.Relation
import ScopeCall.Display
import ScopeCall.Proofs.Copying

/-!
# `ScopeCall.Proofs.Separating` — what a copy has in common with the original

A copy is made of new lists down to the first group. A group is shared, and so are the lists inside it:
these are all that a value and its copy have in common, and a change of any other list on one side
does not show on the other.

## Contents
- **Parts.** `Heap.Contains`, `Heap.Through`, and the values built in finitely many steps.
- **Copies.** `Heap.Copied`: how a copy stands to the original, at every depth.
- **Comparison.** A copy is equal to the original.
- **Shared lists.** `shared_list_iff`.
- **Changing a list.** `showValue_push`, and the main result `copyForContext_separates`.
-/

namespace ScopeCall

namespace Heap

/-! ## Parts -/

/-- `w` is an item of the list `v`. -/
def Item (h : Heap) (v w : Value) : Prop := ∃ l, v = .list l ∧ w ∈ h.items l

/-- `w` is an item of the list `v`, or stands in the group `v`. -/
def Part (h : Heap) (v w : Value) : Prop :=
  h.Item v w ∨ ∃ g, v = .group g ∧ ∃ e ∈ h.entries g, e.value = w

/-- `w` is `v`, or lies inside it at any depth. -/
def Contains (h : Heap) : Value → Value → Prop := Relation.ReflTransGen h.Part

/-- `w` is `v`, or lies inside it with lists alone around it. -/
def Through (h : Heap) : Value → Value → Prop := Relation.ReflTransGen h.Item

/-- A value that is built in finitely many steps from values that refer to nothing: lists of such
    values and, if they are admitted, groups. -/
inductive Built (h : Heap) (grouped : Prop) : Value → Prop
  | plain {v : Value} : v.refs = [] → Built h grouped v
  | list {l : ListId} : l.index < h.lists.size → (∀ v ∈ h.items l, Built h grouped v) →
      Built h grouped (.list l)
  | group {g : GroupId} : grouped → (∀ e ∈ h.entries g, Built h grouped e.value) →
      Built h grouped (.group g)

variable {P : Ref → Prop} {h h' h'' : Heap} {grouped : Prop} {c u v w : Value} {l : ListId}
  {g : GroupId} {n m : Nat}

theorem item_list_iff : h.Item (.list l) w ↔ w ∈ h.items l := by
  simp [Item]

theorem part_list_iff : h.Part (.list l) w ↔ w ∈ h.items l := by
  simp [Part, item_list_iff]

theorem part_group_iff : h.Part (.group g) w ↔ ∃ e ∈ h.entries g, e.value = w := by
  simp [Part, Item]

theorem not_part_of_plain (hv : v.refs = []) : ¬ h.Part v w := by
  rintro (⟨l, rfl, -⟩ | ⟨g, rfl, -⟩) <;> simp [Value.refs] at hv

theorem Through.contains (hw : h.Through v w) : h.Contains v w :=
  Relation.ReflTransGen.mono (fun _ _ => Or.inl) _ _ hw

theorem contains_of_part (hpart : h.Part v u) (hw : h.Contains u w) : h.Contains v w :=
  Relation.ReflTransGen.head hpart hw

/-- A list lies inside a value that is that list, or inside one of its parts. -/
theorem Contains.cases (hw : h.Contains v w) : v = w ∨ ∃ u, h.Part v u ∧ h.Contains u w :=
  Relation.ReflTransGen.cases_head hw

theorem Built.part (hv : h.Built grouped v) (hpart : h.Part v w) : h.Built grouped w := by
  cases hv with
  | plain hrefs => exact absurd hpart (not_part_of_plain hrefs)
  | list _ hitems => exact hitems w (part_list_iff.1 hpart)
  | group _ hentries =>
      obtain ⟨e, he, rfl⟩ := part_group_iff.1 hpart
      exact hentries e he

theorem Built.contains (hv : h.Built grouped v) (hw : h.Contains v w) : h.Built grouped w := by
  induction hw with
  | refl => exact hv
  | tail _ hpart ih => exact ih.part hpart

theorem Built.allocated (hv : h.Built grouped (.list l)) : l.index < h.lists.size := by
  cases hv with
  | plain hrefs => simp [Value.refs] at hrefs
  | list hl _ => exact hl

/-- The parts of a built value, and their parts, come to an end. -/
theorem Built.acc (hv : h.Built grouped v) : Acc (fun w v => h.Part v w) v := by
  induction hv with
  | plain hrefs => exact Acc.intro _ fun w hpart => absurd hpart (not_part_of_plain hrefs)
  | list _ _ ih => exact Acc.intro _ fun w hpart => ih w (part_list_iff.1 hpart)
  | group _ _ ih =>
      refine Acc.intro _ fun w hpart => ?_
      obtain ⟨e, he, rfl⟩ := part_group_iff.1 hpart
      exact ih e he

/-- No value lies inside one of its own parts. -/
theorem Built.not_contains_of_part (hv : h.Built grouped v) (hpart : h.Part v w) :
    ¬ h.Contains w v := by
  have hacc := hv.acc
  clear hv
  induction hacc generalizing w with
  | intro v _ ih =>
      intro hback
      rcases hback.cases with rfl | ⟨u, hu, hback⟩
      · exact ih w hpart hpart .refl
      · exact ih w hpart hu (hback.tail hpart)

/-! ## Copies -/

/-- The lists around what is reached through lists alone are at most `n` deep. -/
def Fits (h : Heap) : Nat → Value → Prop
  | 0,     .list _ => False
  | n + 1, .list l => ∀ v ∈ h.items l, h.Fits n v
  | _,     _       => True

theorem fits_of_plain (hv : ∀ l, v ≠ .list l) : h.Fits n v := by
  cases v with
  | list l => exact absurd rfl (hv l)
  | _ => cases n <;> trivial

/-- Lists that lie inside each other differ, so there are not more of them than are left unused. -/
theorem Built.fits_unused (hv : h.Built grouped v) {used : Finset Nat}
    (hused : used ⊆ Finset.range h.lists.size)
    (hnew : ∀ l, h.Through v (.list l) → l.index ∉ used) :
    h.Fits (h.lists.size - used.card) v := by
  induction hv generalizing used with
  | plain hrefs => exact fits_of_plain fun l hl => by simp [hl, Value.refs] at hrefs
  | group => exact fits_of_plain fun l hl => by cases hl
  | @list l hl hitems ih =>
      -- `used` collects the lists around this one. A list inside it is none of them, as nothing contains itself.
      have hunused : l.index ∉ used := hnew l .refl
      have hinsert : insert l.index used ⊆ Finset.range h.lists.size :=
        Finset.insert_subset (Finset.mem_range.2 hl) hused
      have hcard : used.card + 1 ≤ h.lists.size := by
        simpa [Finset.card_insert_of_notMem hunused] using Finset.card_le_card hinsert
      obtain ⟨k, hk⟩ : ∃ k, h.lists.size - used.card = k + 1 := ⟨h.lists.size - (used.card + 1), by omega⟩
      rw [hk]
      intro v hv
      have hfits := ih v hv hinsert fun k hk hmem => ?_
      · rwa [Finset.card_insert_of_notMem hunused, show h.lists.size - (used.card + 1) = k by omega] at hfits
      · rcases Finset.mem_insert.1 hmem with heq | hmem
        · obtain rfl : k = l := congrArg ListId.mk heq
          exact (Built.list hl hitems).not_contains_of_part (part_list_iff.2 hv) hk.contains
        · exact hnew k (Relation.ReflTransGen.head (item_list_iff.2 hv) hk) hmem

/-- Copying does not stop short of a list in a built value. -/
theorem Built.fits (hv : h.Built grouped v) : h.Fits h.lists.size v := by
  simpa using hv.fits_unused (Finset.empty_subset _) fun _ _ => Finset.notMem_empty _

theorem Fits.mono (hv : h.Fits n v) (hnm : n ≤ m) : h.Fits m v := by
  induction n generalizing v m with
  | zero => exact fits_of_plain fun l hl => by simp [hl, Fits] at hv
  | succ n ih =>
      cases v with
      | list l =>
          cases m with
          | zero => exact absurd hnm (Nat.not_succ_le_zero n)
          | succ m => exact fun v hitem => ih (hv v hitem) (Nat.le_of_succ_le_succ hnm)
      | _ => exact fits_of_plain fun l hl => by cases hl

/-- `c` is `v` down to a depth, with a list made since `h` in place of each list. Items of `v` are
    those in `h`, items of `c` those in `h'`. -/
def Copied (h h' : Heap) : Nat → Value → Value → Prop
  | n + 1, .list k, .list l =>
    h.Made h' (.list k) ∧ List.Forall₂ (h.Copied h' n) (h'.items k).toList (h.items l).toList
  | _,     c,       v       => c = v

theorem copied_plain_iff (hv : ∀ l, v ≠ .list l) : h.Copied h' n c v ↔ c = v := by
  cases v with
  | list l => exact absurd rfl (hv l)
  | _ => cases n <;> cases c <;> rfl

theorem copied_zero_iff : h.Copied h' 0 c v ↔ c = v := by
  cases c <;> cases v <;> rfl

theorem copied_list_iff : h.Copied h' (n + 1) c (.list l) ↔ ∃ k, c = .list k ∧ h.Made h' (.list k)
    ∧ List.Forall₂ (h.Copied h' n) (h'.items k).toList (h.items l).toList := by
  cases c <;> simp [Copied]

theorem Grows.depthBound_le (g : h.Grows P h') : h.depthBound ≤ h'.depthBound := by
  rw [depthBound, depthBound, g.groups]
  exact Nat.succ_le_succ (Nat.add_le_add_right g.size _)

/-- A copy stays one when more lists are made. -/
theorem Copied.mono (hc : h.Copied h' n c v) (g : h'.Grows P h'') : h.Copied h'' n c v := by
  induction n generalizing c v with
  | zero => exact copied_zero_iff.2 (copied_zero_iff.1 hc)
  | succ n ih =>
      cases v with
      | list l =>
          obtain ⟨k, rfl, hmade, hitems⟩ := copied_list_iff.1 hc
          refine copied_list_iff.2 ⟨k, rfl, hmade.mono g.size, ?_⟩
          rw [g.old k hmade.2]
          exact hitems.imp fun _ _ => ih
      | _ => exact (copied_plain_iff (by simp)).2 ((copied_plain_iff (by simp)).1 hc)

theorem copyTo_list_run (h : Heap) (n : Nat) (l : ListId) :
    (copyTo (n + 1) (.list l)).run h =
      let copies := ((h.items l).toList.mapM (copyTo n)).run h
      (.list ⟨copies.2.lists.size⟩, { copies.2 with lists := copies.2.lists.push copies.1.toArray }) :=
  rfl

/-- A list and what it holds, after it has been made. -/
theorem items_newList (h : Heap) (items : Array Value) :
    ({ h with lists := h.lists.push items } : Heap).items ⟨h.lists.size⟩ = items := by
  simp [Heap.items]

theorem copied_mapM {f : Value → StateM Heap Value} {vs : List Value} {h₀ : Heap}
    (hyields : ∀ v, (∀ r ∈ v.refs, P r) → Yields P (f v) fun v r => r ∈ v.refs)
    (hf : ∀ v ∈ vs, ∀ h, h₀.Grows P h → h₀.Copied ((f v).run h).2 n ((f v).run h).1 v)
    (hvs : ∀ v ∈ vs, ∀ r ∈ v.refs, P r) (hP : h₀.Closed P) (g : h₀.Grows P h) :
    List.Forall₂ (h₀.Copied ((vs.mapM f).run h).2 n) ((vs.mapM f).run h).1 vs := by
  induction vs generalizing h with
  | nil => exact .nil
  | cons v vs ih =>
      rw [List.mapM_cons]
      have hrest : ∀ w ∈ vs, ∀ r ∈ w.refs, P r := fun w hw => hvs w (List.mem_cons_of_mem v hw)
      have hfirst := (hyields v (hvs v List.mem_cons_self) h (g.closed hP)).1
      have hcopies := ih (fun w hw => hf w (List.mem_cons_of_mem v hw)) hrest (g.trans hfirst)
      have hlater := (Yields.mapM hyields hrest ((f v).run h).2 ((g.trans hfirst).closed hP)).1
      exact .cons ((hf v List.mem_cons_self h g).mono hlater) hcopies

/-- What copying answers is a copy. -/
theorem copied_copyTo (hP : h.Closed P) (hv : ∀ r ∈ v.refs, P r) (g : h.Grows P h') :
    h.Copied ((copyTo n v).run h').2 n ((copyTo n v).run h').1 v := by
  induction n generalizing v h' with
  | zero => exact copied_zero_iff.2 rfl
  | succ n ih =>
      cases v with
      | list l =>
          obtain ⟨hl, hitems⟩ := hP l (hv _ (by simp [Value.refs]))
          have hvs : ∀ v ∈ (h.items l).toList, ∀ r ∈ v.refs, P r :=
            fun v hv => hitems v (Array.mem_toList_iff.1 hv)
          have hmap := Yields.mapM (fun v hv => yields_copyTo n hv) hvs h' (g.closed hP)
          have hcopies := copied_mapM (n := n) (fun v hv => yields_copyTo n hv)
            (fun v hv h g => ih (hvs v hv) g) hvs hP g
          have hgrows := (Grows.refl (fun _ => True) (((h.items l).toList.mapM (copyTo n)).run h').2).newList
            (((h.items l).toList.mapM (copyTo n)).run h').1.toArray fun _ _ _ _ => Or.inl trivial
          -- The list is older than its copy, and has the items that it had.
          rw [copyTo_list_run, g.old l hl]
          refine copied_list_iff.2 ⟨_, rfl, ⟨Nat.le_trans g.size hmap.1.size, ?_⟩, ?_⟩
          · simp only [Array.size_push, Nat.lt_succ_self]
          · rw [items_newList]
            exact hcopies.imp fun _ _ hc => hc.mono hgrows
      | _ => exact (copied_plain_iff (by simp)).2 rfl

/-! ## Comparison -/

theorem allEqual_of_forall₂ {α : Type} {eq : α → α → Bool} {xs ys : List α}
    (hall : List.Forall₂ (fun x y => eq x y = true) xs ys) : allEqual eq xs ys = true := by
  induction hall with
  | nil => rfl
  | cons hxy _ ih => simp [allEqual, hxy, ih]

theorem equalTo_refl (h : Heap) (n : Nat) (v : Value) : h.equalTo n v v = true := by
  induction n generalizing v with
  | zero => cases v <;> simp [equalTo]
  | succ n ih =>
      cases v with
      | group g =>
          rw [equalTo]
          exact allEqual_of_forall₂ (List.forall₂_same.2 fun e _ => by simp [ih])
      | _ => simp [equalTo]

/-- A copy is equal to the original, to any depth not above that of the copying. -/
theorem Copied.equalTo (hc : h.Copied h' n c v) (hP : h.Closed P) (hv : ∀ r ∈ v.refs, P r)
    (g : h.Grows P h') (hnm : n ≤ m) : h'.equalTo m c v = true := by
  induction n generalizing c v m with
  | zero => exact copied_zero_iff.1 hc ▸ equalTo_refl h' m c
  | succ n ih =>
      cases v with
      | list l =>
          obtain ⟨k, rfl, -, hitems⟩ := copied_list_iff.1 hc
          obtain ⟨hl, hrefs⟩ := hP l (hv _ (by simp [Value.refs]))
          cases m with
          | zero => exact absurd hnm (Nat.not_succ_le_zero n)
          | succ m =>
              rw [Heap.equalTo, g.old l hl, Bool.or_eq_true]
              have hpair : ∀ {d w}, (d, w) ∈ List.zip (h'.items k).toList (h.items l).toList →
                  h'.equalTo m d w = true := fun hmem =>
                ih (List.forall₂_zip hitems hmem)
                  (hrefs _ (Array.mem_toList_iff.1 (List.of_mem_zip hmem).2)) (Nat.le_of_succ_le_succ hnm)
              exact Or.inr (allEqual_of_forall₂ (List.forall₂_iff_zip.2 ⟨hitems.length_eq, hpair⟩))
      | _ => exact (copied_plain_iff (by simp)).1 hc ▸ equalTo_refl h' m c

/-! ## Shared lists -/

/-- `P` holds of existing lists only, and of all that lies inside what it holds of. -/
structure Encloses (P : Ref → Prop) (h : Heap) : Prop where
  closed : h.Closed P
  groups : ∀ g, P (.group g) → ∀ e ∈ h.entries g, ∀ r ∈ e.value.refs, P r

theorem Encloses.part (hP : h.Encloses P) (hv : ∀ r ∈ v.refs, P r) (hpart : h.Part v w) :
    ∀ r ∈ w.refs, P r := by
  obtain ⟨l, rfl, hw⟩ | ⟨g, rfl, e, he, rfl⟩ := hpart
  · exact (hP.closed l (hv _ (by simp [Value.refs]))).2 w hw
  · exact hP.groups g (hv _ (by simp [Value.refs])) e he

theorem Encloses.contains (hP : h.Encloses P) (hv : ∀ r ∈ v.refs, P r) (hw : h.Contains v w) :
    ∀ r ∈ w.refs, P r := by
  induction hw with
  | refl => exact hv
  | tail _ hpart ih => exact hP.part ih hpart

/-- Every list inside such a value exists. -/
theorem Encloses.allocated (hP : h.Encloses P) (hv : ∀ r ∈ v.refs, P r) (hl : h.Contains v (.list l)) :
    l.index < h.lists.size :=
  (hP.closed l (hP.contains hv hl _ (by simp [Value.refs]))).1

/-- What was there keeps its parts. -/
theorem Grows.part_iff (g : h.Grows P h') (hP : h.Closed P) (hv : ∀ r ∈ v.refs, P r) :
    h'.Part v w ↔ h.Part v w := by
  cases v with
  | list l => simp only [part_list_iff, g.old l (hP l (hv _ (by simp [Value.refs]))).1]
  | group k => simp only [part_group_iff, entries, g.groups]
  | _ => simp [Part, Item]

theorem Grows.contains_iff (g : h.Grows P h') (hP : h.Encloses P) (hv : ∀ r ∈ v.refs, P r) :
    h'.Contains v w ↔ h.Contains v w := by
  constructor
  · intro hw
    induction hw with
    | refl => exact .refl
    | tail _ hpart ih => exact ih.tail ((g.part_iff hP.closed (hP.contains hv ih)).1 hpart)
  · intro hw
    induction hw with
    | refl => exact .refl
    | tail hb hpart ih => exact ih.tail ((g.part_iff hP.closed (hP.contains hv hb)).2 hpart)

theorem exists_of_mem_left {α β : Type} {R : α → β → Prop} {xs : List α} {ys : List β}
    (hall : List.Forall₂ R xs ys) {x : α} (hx : x ∈ xs) : ∃ y ∈ ys, R x y := by
  induction hall with
  | nil => cases hx
  | cons hxy _ ih =>
      rcases List.mem_cons.1 hx with rfl | hx
      · exact ⟨_, List.mem_cons_self, hxy⟩
      · obtain ⟨y, hy, hxy⟩ := ih hx
        exact ⟨y, List.mem_cons_of_mem _ hy, hxy⟩

/-- The first container around a list, from a value that is no list, is a group. -/
theorem exists_group_of_plain (hv : ∀ l, v ≠ .list l) (hl : h.Contains v (.list l)) :
    ∃ g, h.Through v (.group g) ∧ h.Contains (.group g) (.list l) := by
  rcases hl.cases with rfl | ⟨u, ⟨k, rfl, -⟩ | ⟨g, rfl, -⟩, -⟩
  · exact absurd rfl (hv l)
  · exact absurd rfl (hv k)
  · exact ⟨g, .refl, hl⟩

/-- A list inside a copy has been made for it, or lies inside a group that is shared. -/
theorem Copied.list_cases (hc : h.Copied h' n c v) (hP : h.Encloses P) (hv : ∀ r ∈ v.refs, P r)
    (g : h.Grows P h') (hfits : h.Fits n v) {k : ListId} (hk : h'.Contains c (.list k)) :
    h.Made h' (.list k) ∨ ∃ g, h.Through v (.group g) ∧ h.Contains (.group g) (.list k) := by
  induction n generalizing c v with
  | zero =>
      have hplain : ∀ l, v ≠ .list l := fun l hl => by simp [hl, Fits] at hfits
      obtain rfl := copied_zero_iff.1 hc
      exact Or.inr (exists_group_of_plain hplain ((g.contains_iff hP hv).1 hk))
  | succ n ih =>
      cases v with
      | list l =>
          obtain ⟨j, rfl, hmade, hitems⟩ := copied_list_iff.1 hc
          rcases hk.cases with heq | ⟨d, hd, hk⟩
          · cases heq
            exact Or.inl hmade
          · obtain ⟨w, hw, hdw⟩ := exists_of_mem_left hitems
              (Array.mem_toList_iff.2 (part_list_iff.1 hd))
            have hw := Array.mem_toList_iff.1 hw
            refine (ih hdw (hP.part hv (part_list_iff.2 hw)) (hfits w hw) hk).imp_right ?_
            rintro ⟨i, hi, hk⟩
            exact ⟨i, Relation.ReflTransGen.head (item_list_iff.2 hw) hi, hk⟩
      | _ =>
          obtain rfl := (copied_plain_iff (by simp)).1 hc
          exact Or.inr (exists_group_of_plain (by simp) ((g.contains_iff hP hv).1 hk))

/-- A group with lists alone around it lies inside a copy too. -/
theorem Copied.contains_group (hc : h.Copied h' n c v) (hP : h.Encloses P) (hv : ∀ r ∈ v.refs, P r)
    (g : h.Grows P h') {k : GroupId} (hk : h.Through v (.group k)) : h'.Contains c (.group k) := by
  induction n generalizing c v with
  | zero =>
      obtain rfl := copied_zero_iff.1 hc
      exact (g.contains_iff hP hv).2 hk.contains
  | succ n ih =>
      cases v with
      | list l =>
          obtain ⟨j, rfl, -, hitems⟩ := copied_list_iff.1 hc
          rcases Relation.ReflTransGen.cases_head hk with heq | ⟨w, hw, hk⟩
          · cases heq
          · have hw := item_list_iff.1 hw
            obtain ⟨d, hd, hdw⟩ := exists_of_mem_left hitems.flip (Array.mem_toList_iff.2 hw)
            exact contains_of_part (part_list_iff.2 (Array.mem_toList_iff.1 hd))
              (ih hdw (hP.part hv (part_list_iff.2 hw)) hk)
      | _ =>
          obtain rfl := (copied_plain_iff (by simp)).1 hc
          exact (g.contains_iff hP hv).2 hk.contains

/-- What a value and its copy have in common are the lists inside the first groups on the way. -/
theorem Copied.shared_list_iff (hc : h.Copied h' n c v) (hP : h.Encloses P) (hv : ∀ r ∈ v.refs, P r)
    (g : h.Grows P h') (hfits : h.Fits n v) {k : ListId} :
    h'.Contains c (.list k) ∧ h'.Contains v (.list k)
      ↔ ∃ g, h.Through v (.group g) ∧ h.Contains (.group g) (.list k) := by
  constructor
  · rintro ⟨hin, hout⟩
    rcases hc.list_cases hP hv g hfits hin with hmade | hshared
    -- A list that has been made for the copy is younger than all that the original contains.
    · have hold := hP.allocated hv ((g.contains_iff hP hv).1 hout)
      exact absurd hmade.1 (Nat.not_le.2 hold)
    · exact hshared
  · rintro ⟨i, hi, hk⟩
    have hgroup : ∀ r ∈ (Value.group i).refs, P r := hP.contains hv hi.contains
    exact ⟨(hc.contains_group hP hv g hi).trans ((g.contains_iff hP hgroup).2 hk),
      (g.contains_iff hP hv).2 (hi.contains.trans hk)⟩

/-- What lies inside a value refers to `r`. -/
def Inside (h : Heap) (v : Value) (r : Ref) : Prop := ∃ w, h.Contains v w ∧ r ∈ w.refs

theorem inside_of_mem_refs {r : Ref} (hr : r ∈ v.refs) : h.Inside v r := ⟨v, .refl, hr⟩

theorem Built.encloses (hv : h.Built grouped v) : h.Encloses (h.Inside v) := by
  constructor
  · rintro l ⟨w, hw, hr⟩
    obtain rfl : w = .list l := by cases w <;> simp_all [Value.refs]
    exact ⟨(hv.contains hw).allocated, fun x hx r hr => ⟨x, hw.tail (part_list_iff.2 hx), hr⟩⟩
  · rintro g ⟨w, hw, hr⟩ e he r hre
    obtain rfl : w = .group g := by cases w <;> simp_all [Value.refs]
    exact ⟨e.value, hw.tail (part_group_iff.2 ⟨e, he, rfl⟩), hre⟩

/-- The lists that a value and a copy of it have in common: those inside a group that lists alone stand around. -/
def SharedList (h : Heap) (v : Value) (l : ListId) : Prop :=
  ∃ g, h.Through v (.group g) ∧ h.Contains (.group g) (.list l)

/-- Without groups nothing is shared. -/
theorem Built.not_sharedList (hv : h.Built False v) : ¬ h.SharedList v l := by
  rintro ⟨g, hg, -⟩
  cases hv.contains hg.contains with
  | plain hrefs => simp [Value.refs] at hrefs
  | group hgrouped _ => exact hgrouped

/-! ## Changing a list -/

theorem items_push_of_ne {k : ListId} (hk : k ≠ l) (x : Value) : (h.push l x).items k = h.items k := by
  have hindex : l.index ≠ k.index := fun heq => hk (congrArg ListId.mk heq.symm)
  simp [items, push, Array.getElem?_modify, hindex]

end Heap

namespace Store

open Heap

variable {v : Value} {l : ListId}

/-- A list that does not lie inside a value can be changed without a trace in what is shown for the value. -/
theorem showValueTo_push (s : Store) (x : Value) (n : Nat) (hl : ¬ s.heap.Contains v (.list l)) :
    ({ s with heap := s.heap.push l x } : Store).showValueTo n v = s.showValueTo n v := by
  induction n generalizing v with
  | zero => cases v <;> rfl
  | succ n ih =>
      cases v with
      | list k =>
          have hk : k ≠ l := by
            rintro rfl
            exact hl .refl
          simp only [showValueTo, items_push_of_ne hk]
          refine congrArg Display.list (List.map_congr_left fun w hw => ih fun hin => hl ?_)
          exact contains_of_part (part_list_iff.2 (Array.mem_toList_iff.1 hw)) hin
      | group g =>
          simp only [showValueTo]
          refine congrArg Display.list (List.map_congr_left fun e he => ?_)
          rw [ih fun hin => hl (contains_of_part (part_group_iff.2 ⟨e, he, rfl⟩) hin)]
      | _ => rfl

theorem showValue_push (s : Store) (x : Value) (hl : ¬ s.heap.Contains v (.list l)) :
    ({ s with heap := s.heap.push l x } : Store).showValue v = s.showValue v := by
  have hbound : (s.heap.push l x).depthBound = s.heap.depthBound := by simp [depthBound, push]
  rw [showValue, showValue, ← showValueTo_push s x _ hl]
  exact congrArg (fun n => ({ s with heap := s.heap.push l x } : Store).showValueTo n v) hbound

/-- **A copy goes down to the groups.** A copy is equal to the original. The lists that both contain are those
    inside a group that lists alone stand around; a value that is pushed onto any other list on one side does not
    change what is shown for the other side. -/
theorem copyForContext_separates (s : Store) (v : Value) (hv : s.heap.Built True v) :
    let (c, h) := (copyForContext v).run s.heap
    h.equal c v = true
      ∧ (∀ l, h.Contains c (.list l) ∧ h.Contains v (.list l) ↔ s.heap.SharedList v l)
      ∧ ∀ l x, ¬ s.heap.SharedList v l →
        (h.Contains c (.list l) →
          ({ s with heap := h.push l x } : Store).showValue v = ({ s with heap := h } : Store).showValue v)
        ∧ (h.Contains v (.list l) →
          ({ s with heap := h.push l x } : Store).showValue c = ({ s with heap := h } : Store).showValue c) := by
  have hP := hv.encloses
  have hrefs : ∀ r ∈ v.refs, s.heap.Inside v r := fun r hr => inside_of_mem_refs hr
  obtain ⟨g, -⟩ := yields_copyForContext hrefs s.heap hP.closed
  have hcopy : s.heap.Copied ((copyForContext v).run s.heap).2 s.heap.depthBound
      ((copyForContext v).run s.heap).1 v := copied_copyTo hP.closed hrefs (.refl _ _)
  have hshared := fun l => hcopy.shared_list_iff hP hrefs g
    (hv.fits.mono (by simp only [depthBound]; omega)) (k := l)
  generalize (copyForContext v).run s.heap = copied at *
  obtain ⟨c, h⟩ := copied
  refine ⟨hcopy.equalTo hP.closed hrefs g g.depthBound_le, hshared, fun l x hl => ⟨fun hc => ?_, fun hv => ?_⟩⟩
  · exact showValue_push { s with heap := h } x fun hv => hl ((hshared l).1 ⟨hc, hv⟩)
  · exact showValue_push { s with heap := h } x fun hc => hl ((hshared l).1 ⟨hc, hv⟩)

/-- A store with the value `[group [[1]]]`: a list in a group in a list. -/
def listInGroup : Store :=
  { heap := { lists := #[#[.int 1], #[.group ⟨0⟩]], groups := #[[⟨none, .list ⟨0⟩⟩]] } }

theorem built_listInGroup : listInGroup.heap.Built True (.list ⟨1⟩) := by
  have hitems : ∀ w ∈ listInGroup.heap.items ⟨1⟩, w = .group ⟨0⟩ := by decide +kernel
  have hentries : ∀ e ∈ listInGroup.heap.entries ⟨0⟩, e.value = .list ⟨0⟩ := by decide +kernel
  have hinner : ∀ w ∈ listInGroup.heap.items ⟨0⟩, w = .int 1 := by decide +kernel
  refine .list (by decide) fun w hw => hitems w hw ▸ .group trivial fun e he => ?_
  rw [hentries e he]
  exact .list (by decide) fun w hw => hinner w hw ▸ .plain rfl

/-- The copy of `[group [[1]]]` is another list, with the same group in it. -/
theorem copied_around_group :
    let (c, h) := (copyForContext (.list ⟨1⟩)).run listInGroup.heap
    listInGroup.heap.Built True (.list ⟨1⟩) ∧ h.equal c (.list ⟨1⟩) = true ∧ c ≠ .list ⟨1⟩
      ∧ h.Contains c (.list ⟨0⟩) ∧ h.Contains (.list ⟨1⟩) (.list ⟨0⟩) := by
  have hshared : listInGroup.heap.SharedList (.list ⟨1⟩) ⟨0⟩ :=
    ⟨⟨0⟩, .single (item_list_iff.2 (by decide +kernel)), .single (part_group_iff.2 (by decide +kernel))⟩
  obtain ⟨hequal, hlists, -⟩ := copyForContext_separates listInGroup (.list ⟨1⟩) built_listInGroup
  exact ⟨built_listInGroup, hequal, by decide +kernel, (hlists ⟨0⟩).2 hshared⟩

/-- **A list in a group stays shared**: `[group [[1]]]` is copied, and a value is pushed onto the innermost list of
    the original. It shows in the copy. -/
theorem copy_shares_list : ¬ ∀ (s : Store) (v : Value), s.heap.Built True v →
    let (c, h) := (copyForContext v).run s.heap
    h.equal c v = true ∧ (∀ l, h.Contains c (.list l) → ¬ h.Contains v (.list l))
      ∧ ∀ l x, h.Contains v (.list l) →
        ({ s with heap := h.push l x } : Store).showValue c = ({ s with heap := h } : Store).showValue c := by
  intro hclaim
  obtain ⟨-, -, hpush⟩ := hclaim listInGroup (.list ⟨1⟩) built_listInGroup
  let h := ((copyForContext (.list ⟨1⟩)).run listInGroup.heap).2
  have houter : h.Part (.list ⟨1⟩) (.group ⟨0⟩) := part_list_iff.2 (by decide +kernel)
  have hinner : h.Part (.group ⟨0⟩) (.list ⟨0⟩) := part_group_iff.2 (by decide +kernel)
  exact absurd (hpush ⟨0⟩ (.int 2) (.tail (.single houter) hinner)) (by decide +kernel)

end Store

end ScopeCall
