import Mathlib.Data.Finset.Card
import Mathlib.Data.Finset.Image
import Mathlib.Data.List.Forall2
import ScopeCall.Proofs.Separating
import ScopeCall.Proofs.Refining

/-!
# `ScopeCall.Proofs.Comparing` — the two ways to compare values agree

Values are compared by sameness, to tell whether a binding has changed, and by content, for programs.
Comparison by content goes down into lists and groups, and treats each step alike, whatever it compares
the parts by. So what holds of one step holds at every depth; and in values that do not contain
themselves there is a depth below which there is nothing left to compare.

## Contents
- **One step.** `Heap.compareBy`, and what it says about each kind of value.
- **Equivalences.** A step by an equivalence is one: `Heap.equivalence_compareBy`, and by induction on the
  depth `Heap.equivalence_equalTo`.
- **Depth.** `Heap.Acyclic`, `Heap.Shallow`, and `Heap.equal_eq`: comparison is a step by itself.
- **Coherence.** `Heap.comparison_coherent`.
-/

namespace ScopeCall

namespace Heap

/-! ## One step -/

/-- One step of the comparison of two values, when what lies inside them is compared by `eq`. -/
def compareBy (h : Heap) (eq : Value → Value → Bool) : Value → Value → Bool
  | .text a,  .text b  => h.text a == h.text b
  | .list a,  .list b  => a == b || allEqual eq (h.items a).toList (h.items b).toList
  | .group a, .group b =>
    allEqual (fun x y => x.name == y.name && eq x.value y.value) (h.entries a) (h.entries b)
  | a,        b        => a.sameIdentity b

variable {h : Heap} {eq eq' : Value → Value → Bool} {u v w : Value} {n m : Nat}

theorem equalTo_zero (h : Heap) (v w : Value) : h.equalTo 0 v w = v.sameIdentity w := by
  cases v <;> cases w <;> rfl

theorem equalTo_succ (h : Heap) (n : Nat) (v w : Value) :
    h.equalTo (n + 1) v w = h.compareBy (h.equalTo n) v w := by
  cases v <;> cases w <;> rfl

theorem allEqual_iff {α : Type} {eq : α → α → Bool} {xs ys : List α} :
    allEqual eq xs ys = true ↔ List.Forall₂ (fun x y => eq x y = true) xs ys := by
  refine ⟨fun hall => ?_, allEqual_of_forall₂⟩
  induction xs generalizing ys with
  | nil =>
    cases ys with
    | nil => exact .nil
    | cons y ys => cases hall
  | cons x xs ih =>
    cases ys with
    | nil => cases hall
    | cons y ys =>
      obtain ⟨hxy, hrest⟩ := Bool.and_eq_true_iff.mp hall
      exact .cons hxy (ih hrest)

theorem compareBy_text {t : TextId} :
    h.compareBy eq (.text t) w = true ↔ ∃ t', w = .text t' ∧ h.text t = h.text t' := by
  cases w <;> simp [compareBy, Value.sameIdentity]

theorem compareBy_list {l : ListId} :
    h.compareBy eq (.list l) w = true ↔ ∃ l', w = .list l'
      ∧ (l = l' ∨ List.Forall₂ (fun x y => eq x y = true) (h.items l).toList (h.items l').toList) := by
  cases w <;> simp [compareBy, Value.sameIdentity, allEqual_iff]

/-- Two entries have the same name, and values that are equal by `eq`. -/
def EntryEqual (eq : Value → Value → Bool) (x y : GroupEntry) : Prop :=
  x.name = y.name ∧ eq x.value y.value = true

theorem compareBy_group {g : GroupId} :
    h.compareBy eq (.group g) w = true ↔ ∃ g', w = .group g'
      ∧ List.Forall₂ (EntryEqual eq) (h.entries g) (h.entries g') := by
  have hentry : EntryEqual eq = fun x y => (x.name == y.name && eq x.value y.value) = true := by
    funext x y
    simp [EntryEqual]
  rw [hentry]
  cases w <;> simp [compareBy, Value.sameIdentity, allEqual_iff]

/-- A value of another kind than these three. -/
def Scalar (v : Value) : Prop := (∀ t, v ≠ .text t) ∧ (∀ l, v ≠ .list l) ∧ ∀ g, v ≠ .group g

theorem compareBy_scalar (hv : Scalar v) : h.compareBy eq v w = true ↔ v = w := by
  obtain ⟨htext, hlist, hgroup⟩ := hv
  cases v with
  | text t => exact absurd rfl (htext t)
  | list l => exact absurd rfl (hlist l)
  | group g => exact absurd rfl (hgroup g)
  | _ => simp [compareBy]

/-! ## Equivalences -/

theorem equivalence_forall₂ {α : Type} {r : α → α → Prop} (hr : Equivalence r) :
    Equivalence (List.Forall₂ r) where
  refl xs := List.forall₂_same.mpr fun x _ => hr.refl x
  symm hxy := (hxy.imp fun _ _ => hr.symm).flip
  trans {xs ys zs} hxy hyz := by
    induction hxy generalizing zs with
    | nil => exact hyz
    | cons hhead _ ih =>
      obtain ⟨z, zs, hhead', htail, rfl⟩ := List.forall₂_cons_left_iff.mp hyz
      exact .cons (hr.trans hhead hhead') (ih htail)

theorem equivalence_entryEqual (heq : Equivalence fun v w => eq v w = true) :
    Equivalence (EntryEqual eq) where
  refl x := ⟨rfl, heq.refl x.value⟩
  symm hxy := ⟨hxy.1.symm, heq.symm hxy.2⟩
  trans hxy hyz := ⟨hxy.1.trans hyz.1, heq.trans hxy.2 hyz.2⟩

theorem equivalence_compareBy (heq : Equivalence fun v w => eq v w = true) :
    Equivalence fun v w => h.compareBy eq v w = true where
  refl v := by
    cases v with
    | text t  => exact compareBy_text.mpr ⟨t, rfl, rfl⟩
    | list l  => exact compareBy_list.mpr ⟨l, rfl, .inl rfl⟩
    | group g => exact compareBy_group.mpr ⟨g, rfl, (equivalence_forall₂ (equivalence_entryEqual heq)).refl _⟩
    | _       => exact (compareBy_scalar (by simp [Scalar])).mpr rfl
  symm {v w} hvw := by
    cases v with
    | text t =>
      obtain ⟨t', rfl, htext⟩ := compareBy_text.mp hvw
      exact compareBy_text.mpr ⟨t, rfl, htext.symm⟩
    | list l =>
      obtain ⟨l', rfl, hitems⟩ := compareBy_list.mp hvw
      exact compareBy_list.mpr ⟨l, rfl, hitems.imp Eq.symm (equivalence_forall₂ heq).symm⟩
    | group g =>
      obtain ⟨g', rfl, hentries⟩ := compareBy_group.mp hvw
      exact compareBy_group.mpr
        ⟨g, rfl, (equivalence_forall₂ (equivalence_entryEqual heq)).symm hentries⟩
    | _ =>
      obtain rfl := (compareBy_scalar (by simp [Scalar])).mp hvw
      exact hvw
  trans {u v w} huv hvw := by
    cases u with
    | text t =>
      obtain ⟨t', rfl, htext⟩ := compareBy_text.mp huv
      obtain ⟨t'', rfl, htext'⟩ := compareBy_text.mp hvw
      exact compareBy_text.mpr ⟨t'', rfl, htext.trans htext'⟩
    | list l =>
      obtain ⟨l', rfl, hitems⟩ := compareBy_list.mp huv
      obtain ⟨l'', rfl, hitems'⟩ := compareBy_list.mp hvw
      refine compareBy_list.mpr ⟨l'', rfl, ?_⟩
      rcases hitems with rfl | hitems
      · exact hitems'
      · rcases hitems' with rfl | hitems'
        · exact .inr hitems
        · exact .inr ((equivalence_forall₂ heq).trans hitems hitems')
    | group g =>
      obtain ⟨g', rfl, hentries⟩ := compareBy_group.mp huv
      obtain ⟨g'', rfl, hentries'⟩ := compareBy_group.mp hvw
      exact compareBy_group.mpr
        ⟨g'', rfl, (equivalence_forall₂ (equivalence_entryEqual heq)).trans hentries hentries'⟩
    | _ =>
      obtain rfl := (compareBy_scalar (by simp [Scalar])).mp huv
      exact hvw

theorem equivalence_sameIdentity : Equivalence fun v w : Value => v.sameIdentity w = true := by
  simpa only [Value.sameIdentity_iff_eq] using eq_equivalence

theorem equivalence_equalTo (h : Heap) (n : Nat) : Equivalence fun v w => h.equalTo n v w = true := by
  induction n with
  | zero => simpa only [equalTo_zero] using equivalence_sameIdentity
  | succ n ih => simpa only [equalTo_succ] using equivalence_compareBy ih

/-! ## Depth -/

/-- No value inside `v` lies inside one of its own parts. -/
def Acyclic (h : Heap) (v : Value) : Prop :=
  ∀ u, h.Contains v u → ∀ w, h.Part u w → ¬ h.Contains w u

/-- At most `n` values lie one inside the other inside `v`. -/
def Shallow (h : Heap) : Nat → Value → Prop
  | 0,     v => ∀ w, ¬ h.Part v w
  | n + 1, v => ∀ w, h.Part v w → h.Shallow n w

/-- The values that have parts are among these. -/
def containers (h : Heap) : Finset Value :=
  (Finset.range h.lists.size).image (fun i => .list ⟨i⟩)
    ∪ (Finset.range h.groups.size).image fun i => .group ⟨i⟩

theorem mem_containers_of_part (hpart : h.Part v w) : v ∈ h.containers := by
  rcases hpart with ⟨⟨i⟩, rfl, hw⟩ | ⟨⟨i⟩, rfl, e, he, -⟩
  · have hlt : i < h.lists.size := by
      by_contra hge
      simp [items, Array.getElem?_eq_none (Nat.le_of_not_lt hge)] at hw
    simp [containers, hlt]
  · have hlt : i < h.groups.size := by
      by_contra hge
      simp [entries, Array.getElem?_eq_none (Nat.le_of_not_lt hge)] at he
    simp [containers, hlt]

theorem card_containers_lt (h : Heap) : h.containers.card < h.depthBound := by
  have hlists := Finset.card_image_le (s := Finset.range h.lists.size) (f := fun i => Value.list ⟨i⟩)
  have hgroups := Finset.card_image_le (s := Finset.range h.groups.size) (f := fun i => Value.group ⟨i⟩)
  rw [Finset.card_range] at hlists hgroups
  have hboth := Finset.card_union_le ((Finset.range h.lists.size).image fun i => Value.list ⟨i⟩)
    ((Finset.range h.groups.size).image fun i => Value.group ⟨i⟩)
  rw [containers, depthBound]
  omega

theorem Built.acyclic {grouped : Prop} (hv : h.Built grouped v) : h.Acyclic v :=
  fun _ hu _ hpart => (hv.contains hu).not_contains_of_part hpart

theorem Acyclic.part (hv : h.Acyclic v) (hpart : h.Part v w) : h.Acyclic w :=
  fun u hu => hv u (contains_of_part hpart hu)

/-- Values that lie inside each other differ, so there are not more of them than containers left unused. -/
theorem Acyclic.shallow_unused (hv : h.Acyclic v) {used : Finset Value} (hused : used ⊆ h.containers)
    (hcard : h.containers.card ≤ n + used.card) (hnew : ∀ w, h.Contains v w → w ∉ used) :
    h.Shallow n v := by
  induction n generalizing v used with
  | zero =>
    -- All containers are used, so `v` cannot be one more.
    intro w hpart
    have hall : used = h.containers := Finset.eq_of_subset_of_card_le hused (by omega)
    exact hnew v .refl (hall ▸ mem_containers_of_part hpart)
  | succ n ih =>
    intro w hpart
    have hinsert : insert v used ⊆ h.containers := Finset.insert_subset (mem_containers_of_part hpart) hused
    refine ih (hv.part hpart) hinsert ?_ ?_
    · rw [Finset.card_insert_of_notMem (hnew v .refl)]
      omega
    · intro u hu hmem
      rcases Finset.mem_insert.mp hmem with rfl | hmem
      · exact hv u .refl w hpart hu
      · exact hnew u (contains_of_part hpart hu) hmem

theorem Acyclic.shallow (hv : h.Acyclic v) : h.Shallow h.containers.card v :=
  hv.shallow_unused (Finset.empty_subset _) (Nat.le_add_right _ _) fun _ _ => Finset.notMem_empty _

theorem allEqual_congr {α : Type} {eq eq' : α → α → Bool} {xs ys : List α}
    (hsame : ∀ x ∈ xs, ∀ y, eq x y = eq' x y) : allEqual eq xs ys = allEqual eq' xs ys := by
  induction xs generalizing ys with
  | nil => cases ys <;> rfl
  | cons x xs ih =>
    cases ys with
    | nil => rfl
    | cons y ys =>
      rw [allEqual, allEqual, hsame x List.mem_cons_self y,
        ih fun x hx => hsame x (List.mem_cons_of_mem _ hx)]

/-- A step compares parts of the first value with others, and nothing else. -/
theorem compareBy_congr (hsame : ∀ u, h.Part v u → ∀ w, eq u w = eq' u w) (w : Value) :
    h.compareBy eq v w = h.compareBy eq' v w := by
  cases v with
  | list l =>
    cases w with
    | list l' =>
      rw [compareBy, compareBy, allEqual_congr fun x hx =>
        hsame x (part_list_iff.mpr (Array.mem_toList_iff.mp hx))]
    | _ => rfl
  | group g =>
    cases w with
    | group g' =>
      rw [compareBy, compareBy]
      refine allEqual_congr fun x hx y => ?_
      rw [hsame x.value (part_group_iff.mpr ⟨x, hx, rfl⟩)]
    | _ => rfl
  | _ => cases w <;> rfl

/-- Comparison does not depend on how far it may go, once this is past the depth of the value. -/
theorem Shallow.equalTo_eq (hv : h.Shallow n v) {k : Nat} (hk : n < k) (hm : n < m) (w : Value) :
    h.equalTo k v w = h.equalTo m v w := by
  induction n generalizing v w k m with
  | zero =>
    obtain ⟨k, rfl⟩ := Nat.exists_eq_add_one_of_ne_zero hk.ne'
    obtain ⟨m, rfl⟩ := Nat.exists_eq_add_one_of_ne_zero hm.ne'
    rw [equalTo_succ, equalTo_succ]
    exact compareBy_congr (fun u hu => absurd hu (hv u)) w
  | succ n ih =>
    obtain ⟨k, rfl⟩ := Nat.exists_eq_add_one_of_ne_zero (Nat.ne_of_gt (Nat.zero_lt_of_lt hk))
    obtain ⟨m, rfl⟩ := Nat.exists_eq_add_one_of_ne_zero (Nat.ne_of_gt (Nat.zero_lt_of_lt hm))
    rw [equalTo_succ, equalTo_succ]
    exact compareBy_congr (fun u hu w => ih (hv u hu) (by omega) (by omega) w) w

/-- Comparison by content is one step by comparison by content: it never stops short. -/
theorem Acyclic.equal_eq (hv : h.Acyclic v) (w : Value) : h.equal v w = h.compareBy h.equal v w := by
  have hdeep := h.card_containers_lt
  rw [equal, hv.shallow.equalTo_eq hdeep (Nat.lt_succ_of_lt hdeep) w, equalTo_succ]
  rfl

end Heap

namespace Store

variable {s : Store} {a : ActivationId} {i : Nat} {t : StableId} {v w : Value}

/-- Writing what a slot holds already keeps its token, and leaves the token as it is. -/
theorem write_same (ha : s.Allocated (.activation a)) (hplain : (s.content a i).isFanOut = false)
    (htoken : s.token (s.layoutOf a) i = some t) (hvalue : (s.stable t).value = some v)
    (hsame : v.sameIdentity w = true) (nonLocal : Bool) :
    ∃ s', (write a i w nonLocal).run.run s = (.ok (), s')
      ∧ s'.token (s.layoutOf a) i = some t ∧ s'.stable t = s.stable t ∧ s'.heap = s.heap
      ∧ s'.content a i = .value w := by
  obtain ⟨info, hslot, hstable⟩ := token_eq_some.mp htoken
  obtain rfl := (Value.sameIdentity_iff_eq v w).mp hsame
  have hnoted := (aside_noted s a v).1
  -- Recording the write finds that the token reads this very value, and does nothing.
  have hrecord : (recordWrite (s.layoutOf a) i (some v)).run (s.noted a v) = (false, s.noted a v) := by
    rw [recordWrite_run, slot?, hnoted.layout, ← slot?, hslot]
    dsimp only
    rw [hstable]
    dsimp only
    rw [hnoted.stable, if_pos hvalue]
  have hstore : (store a i v).run (s.noted a v) = (false, (s.noted a v).setContent a i (.value v)) := by
    rw [store_run, content_congr hnoted.activations, layoutOf, hnoted.activation, ← layoutOf, hrecord]
    cases hc : s.content a i with
    | fanOut vs => simp [hc, SlotContent.isFanOut] at hplain
    | _         => rfl
  obtain ⟨s', hs', hrun⟩ : ∃ s', ((s.noted a v).setContent a i (.value v)).Aside s'
      ∧ (write a i v nonLocal).run.run s = (.ok (), s') := by
    rw [write_run, hslot]
    dsimp only
    rw [hstore]
    exact ⟨_, (aside_noteWrite _ info nonLocal _).1, rfl⟩
  refine ⟨s', hrun, token_eq_some.mpr ⟨info, ?_, hstable⟩, (hs'.stable t).trans (hnoted.stable t),
    hs'.heap.trans hnoted.heap, ?_⟩
  · rw [slot?, hs'.layout, ← hslot, slot?, ← hnoted.layout]
    rfl
  · have hcontent := content_write ha hslot hplain v nonLocal a i
    rw [hrun] at hcontent
    simpa using hcontent

/-- **Comparison is coherent.** Sameness and comparison by content are equivalences, and values that are the
    same are equal by content. Comparison by content takes texts by their characters, lists and groups
    entry by entry and by comparison by content again, however deep a value is that does not contain
    itself, and everything else by sameness. So a token that a slot keeps, because it was written what it
    holds already, reads as a value that is equal to what is stored. -/
theorem comparison_coherent (s : Store) :
    (Equivalence fun v w : Value => v.sameIdentity w = true)
      ∧ (Equivalence fun v w => s.heap.equal v w = true)
      ∧ (∀ v w, v.sameIdentity w = true → s.heap.equal v w = true)
      ∧ (∀ v w, s.heap.Acyclic v → s.heap.equal v w = s.heap.compareBy s.heap.equal v w)
      ∧ ∀ a i t v w nonLocal, s.Allocated (.activation a) → (s.content a i).isFanOut = false →
        s.token (s.layoutOf a) i = some t → (s.stable t).value = some v → v.sameIdentity w = true →
          ∃ s', (write a i w nonLocal).run.run s = (.ok (), s')
            ∧ s'.token (s.layoutOf a) i = some t ∧ s'.content a i = .value w
            ∧ ∃ r, (s'.stable t).value = some r ∧ s'.heap.equal r w = true := by
  have hequal := Heap.equivalence_equalTo s.heap s.heap.depthBound
  have hsame : ∀ v w, v.sameIdentity w = true → s.heap.equal v w = true := by
    intro v w hvw
    obtain rfl := (Value.sameIdentity_iff_eq v w).mp hvw
    exact hequal.refl v
  refine ⟨Heap.equivalence_sameIdentity, hequal, hsame, fun v w hv => hv.equal_eq w, ?_⟩
  intro a i t v w nonLocal ha hplain htoken hvalue hvw
  obtain ⟨s', hrun, htoken', hstable, hheap, hcontent⟩ :=
    write_same ha hplain htoken hvalue hvw nonLocal
  refine ⟨s', hrun, htoken', hcontent, v, hstable ▸ hvalue, ?_⟩
  rw [hheap]
  exact hsame v w hvw

/-- Two lists that hold the same float, which is not a number, and texts that read the same. A module binds `x`
    to the first one. -/
def twoLists : Store :=
  let nan := Value.float 0x7ff8000000000000
  let heap : Heap := { texts := #["a", "a"], lists := #[#[nan, .text ⟨0⟩], #[nan, .text ⟨1⟩]] }
  [Operation.newLayout "m" .singleton {}, .newScope ⟨0⟩ none 0, .define ⟨0⟩ ⟨2⟩ (.list ⟨0⟩)].foldl
    Operation.perform { Store.new ["x"] with heap }

theorem acyclic_twoLists : twoLists.heap.Acyclic (.list ⟨0⟩) := by
  have hitems : ∀ w ∈ twoLists.heap.items ⟨0⟩, w.refs = [] := by decide +kernel
  have hbuilt : twoLists.heap.Built False (.list ⟨0⟩) := .list (by decide +kernel) fun w hw => .plain (hitems w hw)
  exact hbuilt.acyclic

/-- The lists are equal and not the same, and `x` keeps its token when it is bound to the first one again. -/
theorem comparison_coherent_twoLists :
    let s := twoLists
    s.heap.Acyclic (.list ⟨0⟩) ∧ s.heap.equal (.list ⟨0⟩) (.list ⟨1⟩) = true
      ∧ s.heap.equal (.list ⟨1⟩) (.list ⟨0⟩) = true ∧ Value.sameIdentity (.list ⟨0⟩) (.list ⟨1⟩) = false
      ∧ ∃ t, s.token ⟨0⟩ 0 = some t ∧ ∃ s', (write ⟨0⟩ 0 (.list ⟨0⟩) false).run.run s = (.ok (), s')
        ∧ s'.token ⟨0⟩ 0 = some t ∧ ∃ r, (s'.stable t).value = some r ∧ s'.heap.equal r (.list ⟨0⟩) = true := by
  intro s
  obtain ⟨-, hequal, -, hstep, hwrite⟩ := comparison_coherent s
  have hforth : s.heap.equal (.list ⟨0⟩) (.list ⟨1⟩) = true :=
    (hstep _ _ acyclic_twoLists).trans (by decide +kernel)
  have hlayout : s.layoutOf ⟨0⟩ = ⟨0⟩ := by decide +kernel
  refine ⟨acyclic_twoLists, hforth, hequal.symm hforth, by decide, ⟨1⟩, by decide +kernel, ?_⟩
  obtain ⟨s', hrun, htoken, -, hread⟩ := hwrite ⟨0⟩ 0 ⟨1⟩ (.list ⟨0⟩) (.list ⟨0⟩) false (by decide +kernel)
    (by decide +kernel) (by decide +kernel) (by decide +kernel) (by decide)
  exact ⟨s', hrun, hlayout ▸ htoken, hread⟩

end Store

end ScopeCall
