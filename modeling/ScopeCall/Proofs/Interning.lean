import Mathlib.Data.Finset.Card
import Mathlib.Data.Finset.Insert
import Mathlib.Data.List.Zip
import ScopeCall.Name

/-!
# `ScopeCall.Proofs.Interning` — names stand for texts, one for one

An interner keeps two tables, from texts to names and from numbers to texts. They mirror each other at
all times, and a call at most puts a new text at the end of both. So a name says as much as its text, to
whoever holds it and for as long as the interner lives.

## Contents
- **The mirror.** `Interner.Mirrored`, and what it says about the texts: each has one place.
- **Growth.** `Interner.Grows`: what a name spells, it spells for good. No call breaks this, not even one
  that finds no number left.
- **One call.** `Interner.Answers` is what a call does while there are numbers, `answers_perform`; when a call is
  refused, `tryIntern_error_iff`.
- **Many calls.** `answersAll_performAll`, by induction on the calls.
- **One for one.** `Interner.names_stand_for_texts`.
-/

namespace ScopeCall

namespace Interner

/-! ## Calls -/

/-- The two ways to ask for a name: one ends the program when no number is left, the other reports it. -/
inductive Call where
  | intern (text : String)
  | tryIntern (text : String)
deriving DecidableEq, Repr

def Call.text : Call → String
  | .intern text | .tryIntern text => text

/-- The answer to one call. -/
def perform (t : Interner) : Call → Except InternError Name × Interner
  | .intern text    =>
    let (n, t) := t.intern text
    (.ok n, t)
  | .tryIntern text =>
    match t.tryIntern text with
    | .ok (n, t) => (.ok n, t)
    | .error e   => (.error e, t)

/-- The answers to a list of calls, and the interner after them. -/
def performAll (t : Interner) : List Call → List (Except InternError Name) × Interner
  | []            => ([], t)
  | call :: calls =>
    let (answer, t) := t.perform call
    let (answers, t) := t.performAll calls
    (answer :: answers, t)

/-! ## The mirror -/

/-- A text is found under the number of its place, and under no other. -/
def Mirrored (t : Interner) : Prop :=
  ∀ text n, t.find? text = some n ↔ t.texts[n.raw]? = some text

/-- The texts that have a name. -/
def known (t : Interner) : Finset String := t.texts.toList.toFinset

/-- What a new interner knows once it was asked for some texts: these, and the reserved ones. -/
def knownAfter (texts : List String) : Finset String := {"", "..."} ∪ texts.toFinset

variable {t t' t'' : Interner} {text : String} {n : Name}

theorem mem_known : text ∈ t.known ↔ ∃ i : Nat, t.texts[i]? = some text := by
  simp [known, Array.mem_iff_getElem?]

theorem known_new : new.known = knownAfter [] := by
  decide

theorem lookup_cons_eq (s : String) (names : List (String × Name)) :
    ((text, n) :: names).lookup s = if s = text then some n else names.lookup s := by
  by_cases h : s = text
  · simp [h]
  · simp [List.lookup_cons, beq_false_of_ne h, h]

theorem mirrored_new : new.Mirrored := by
  rintro text ⟨i⟩
  simp only [new, find?, lookup_cons_eq, List.lookup_nil]
  match i with
  | 0 | 1 | _ + 2 => grind [Name.empty, Name.variadic]

theorem Mirrored.find?_eq_none (h : t.Mirrored) : t.find? text = none ↔ text ∉ t.known := by
  rw [mem_known, Option.eq_none_iff_forall_ne_some]
  constructor
  · rintro hnone ⟨i, hi⟩
    exact hnone ⟨i⟩ ((h text ⟨i⟩).mpr hi)
  · rintro hnone n hn
    exact hnone ⟨n.raw, (h text n).mp hn⟩

/-- Two names that spell the same text are the same. -/
theorem Mirrored.name_unique (h : t.Mirrored) {m n : Name} (hm : t.texts[m.raw]? = some text)
    (hn : t.texts[n.raw]? = some text) : m = n := by
  have hfound := (h text m).mpr hm
  rw [(h text n).mpr hn] at hfound
  exact (Option.some.inj hfound).symm

theorem Mirrored.size_eq_card (h : t.Mirrored) : t.size = t.known.card := by
  have hnodup : t.texts.toList.Nodup := by
    rw [List.nodup_iff_injective_getElem]
    intro i j hij
    have hspelled : ∀ k : Fin t.texts.toList.length, t.texts[k.val]? = some t.texts.toList[k.val] := by
      intro k
      rw [← Array.getElem?_toList, List.getElem?_eq_getElem k.isLt]
    have hnames : (⟨i.val⟩ : Name) = ⟨j.val⟩ :=
      h.name_unique (hspelled i) ((hspelled j).trans (congrArg some hij.symm))
    exact Fin.ext (Name.mk.inj hnames)
  rw [known, List.toFinset_card_of_nodup hnodup, size, Array.length_toList]

/-! ## Growth -/

/-- Every number that spells a text goes on to spell it. -/
def Grows (t t' : Interner) : Prop := ∀ (i : Nat) s, t.texts[i]? = some s → t'.texts[i]? = some s

theorem Grows.refl (t : Interner) : t.Grows t := fun _ _ => id

theorem Grows.trans (g : t.Grows t') (g' : t'.Grows t'') : t.Grows t'' :=
  fun i s hi => g' i s (g i s hi)

theorem find?_add (s : String) :
    (t.add text).find? s = if s = text then some ⟨t.size⟩ else t.find? s :=
  lookup_cons_eq s t.names

theorem getElem?_texts_add (i : Nat) :
    (t.add text).texts[i]? = if i = t.size then some text else t.texts[i]? :=
  Array.getElem?_push

theorem grows_add : t.Grows (t.add text) := by
  intro i s hi
  have hne : i ≠ t.size := by
    rintro rfl
    simp [size] at hi
  rw [getElem?_texts_add, if_neg hne, hi]

theorem grows_intern : t.Grows (t.intern text).2 := by
  unfold intern tryIntern
  split
  next answer heq =>
    split at heq
    · cases heq
      exact .refl t
    · split at heq
      · cases heq
        exact grows_add
      · cases heq
  next => exact .refl t

theorem perform_snd (call : Call) : (t.perform call).2 = (t.intern call.text).2 := by
  cases call with
  | intern text    => rfl
  | tryIntern text =>
    simp only [perform, intern, Call.text]
    cases t.tryIntern text <;> rfl

theorem grows_perform (call : Call) : t.Grows (t.perform call).2 :=
  perform_snd call ▸ grows_intern

theorem grows_performAll (calls : List Call) : t.Grows (t.performAll calls).2 := by
  induction calls generalizing t with
  | nil             => exact .refl t
  | cons call _ ih  => exact (grows_perform call).trans ih

/-! ## One call -/

/-- The number `n`, answered to a call for `text`, spells that text; besides the text nothing new is
    known, and a new text takes the number after those in use. -/
structure Answers (t : Interner) (text : String) (n : Name) (t' : Interner) : Prop where
  mirrored : t'.Mirrored
  spelled  : t'.texts[n.raw]? = some text
  known_eq : t'.known = insert text t.known
  dense    : text ∉ t.known → n.raw = t.known.card

theorem Mirrored.add (h : t.Mirrored) (hnew : text ∉ t.known) : (t.add text).Mirrored := by
  rintro s ⟨i⟩
  rw [find?_add, getElem?_texts_add]
  have hend : t.texts[t.size]? = none := by simp [size]
  by_cases hs : s = text
  · subst hs
    have hunknown : t.texts[i]? ≠ some s := fun hi => hnew (mem_known.mpr ⟨i, hi⟩)
    by_cases hi : i = t.size
    · simp [hi]
    · simpa [hi, Ne.symm hi] using hunknown
  · rw [if_neg hs, h s ⟨i⟩]
    by_cases hi : i = t.size
    · simp [hi, hend, Ne.symm hs]
    · simp [hi]

/-- A call is answered as long as the text is known or a number is left for it. -/
theorem answers_tryIntern (h : t.Mirrored) (hroom : (insert text t.known).card ≤ nameBound) :
    ∃ n t', t.tryIntern text = .ok (n, t') ∧ Answers t text n t' := by
  unfold tryIntern
  by_cases hknown : text ∈ t.known
  case pos =>
    obtain ⟨i, hi⟩ := mem_known.mp hknown
    rw [(h text ⟨i⟩).mpr hi]
    exact ⟨_, _, rfl, h, hi, (Finset.insert_eq_of_mem hknown).symm,
      fun hnew => absurd hknown hnew⟩
  case neg =>
    have hfree : t.size < nameBound := by
      rw [Finset.card_insert_of_notMem hknown] at hroom
      rw [h.size_eq_card]
      omega
    rw [h.find?_eq_none.mpr hknown, if_pos hfree]
    refine ⟨_, _, rfl, h.add hknown, ?_, ?_, fun _ => h.size_eq_card⟩
    · rw [getElem?_texts_add, if_pos rfl]
    · simp [known, Interner.add]

/-- **A call is refused just when its text is new and every number is in use**, and is told how many these are. -/
theorem tryIntern_error_iff (h : t.Mirrored) (e : InternError) :
    t.tryIntern text = .error e ↔ text ∉ t.known ∧ nameBound ≤ t.known.card ∧ e = ⟨t.known.card⟩ := by
  rw [← h.find?_eq_none, ← h.size_eq_card, tryIntern]
  cases t.find? text with
  | some n => simp
  | none =>
    by_cases hfree : t.size < nameBound
    · simp [hfree]
    · simp [hfree, Nat.not_lt.mp hfree, eq_comm]

theorem answers_perform (call : Call) (h : t.Mirrored)
    (hroom : (insert call.text t.known).card ≤ nameBound) :
    ∃ n t', t.perform call = (.ok n, t') ∧ Answers t call.text n t' := by
  obtain ⟨n, t', htry, hanswers⟩ := answers_tryIntern h hroom
  refine ⟨n, t', ?_, hanswers⟩
  cases call with
  | intern text    => simp only [perform, intern, show t.tryIntern text = _ from htry]
  | tryIntern text => simp only [perform, show t.tryIntern text = _ from htry]

/-! ## Many calls -/

/-- Every answer to a list of calls spells its text, nothing else becomes known, and each new text takes
    the number after those in use by then. -/
structure AnswersAll (t : Interner) (calls : List Call) (names : List Name) (t' : Interner) :
    Prop where
  mirrored : t'.Mirrored
  spelled  : List.Forall₂ (fun call n => t'.texts[n.raw]? = some call.text) calls names
  known_eq : t'.known = t.known ∪ (calls.map Call.text).toFinset
  dense    : ∀ (i : Nat) call n, (calls.zip names)[i]? = some (call, n) →
    call.text ∉ t.known ∪ ((calls.take i).map Call.text).toFinset →
      n.raw = (t.known ∪ ((calls.take i).map Call.text).toFinset).card

theorem AnswersAll.nil (h : t.Mirrored) : AnswersAll t [] [] t :=
  ⟨h, .nil, by simp, by simp⟩

theorem AnswersAll.cons {call : Call} {calls : List Call} {names : List Name}
    (hfirst : Answers t call.text n t') (hrest : AnswersAll t' calls names t'')
    (g : t'.Grows t'') : AnswersAll t (call :: calls) (n :: names) t'' where
  mirrored := hrest.mirrored
  spelled  := .cons (g _ _ hfirst.spelled) hrest.spelled
  known_eq := by rw [hrest.known_eq, hfirst.known_eq]; simp
  dense := by
    rintro (_ | i) call' m hi hnew
    · obtain ⟨rfl, rfl⟩ : call = call' ∧ n = m := by simpa using hi
      simpa using hfirst.dense (by simpa using hnew)
    · -- What the first call has made known, the others find known.
      have hseen : t.known ∪ (((call :: calls).take (i + 1)).map Call.text).toFinset
          = t'.known ∪ ((calls.take i).map Call.text).toFinset := by
        rw [hfirst.known_eq]
        simp
      rw [hseen] at hnew ⊢
      exact hrest.dense i call' m (by simpa using hi) hnew

theorem answersAll_performAll (calls : List Call) (h : t.Mirrored)
    (hroom : (t.known ∪ (calls.map Call.text).toFinset).card ≤ nameBound) :
    ∃ names, (t.performAll calls).1 = names.map .ok
      ∧ AnswersAll t calls names (t.performAll calls).2 := by
  induction calls generalizing t with
  | nil => exact ⟨[], rfl, .nil h⟩
  | cons call calls ih =>
    have hsplit : t.known ∪ ((call :: calls).map Call.text).toFinset
        = insert call.text t.known ∪ (calls.map Call.text).toFinset := by simp
    rw [hsplit] at hroom
    obtain ⟨n, t', hfirst, hanswers⟩ := answers_perform call h
      (le_trans (Finset.card_le_card Finset.subset_union_left) hroom)
    rw [← hanswers.known_eq] at hroom
    obtain ⟨names, hrest, hall⟩ := ih hanswers.mirrored hroom
    have hrun : t.performAll (call :: calls)
        = (.ok n :: (t'.performAll calls).1, (t'.performAll calls).2) := by
      simp only [performAll, hfirst]
    rw [hrun]
    exact ⟨n :: names, by simp only [hrest, List.map_cons], .cons hanswers hall (grows_performAll calls)⟩

/-! ## One for one -/

theorem lookup_eq (h : t.texts[n.raw]? = some text) : t.lookup n = text := by
  simp [lookup, h]

theorem lookup_of_size_le (h : t.size ≤ n.raw) : t.lookup n = "<unknown>" := by
  have hpast : t.texts[n.raw]? = none := Array.getElem?_eq_none h
  simp [lookup, hpast]

/-- **Names stand for texts, one for one.** However an interner is asked, while there are numbers for the
    texts: every call answers a name, two names are equal exactly when their texts are, and a name spells
    its text from then on, whatever is asked later. The reserved texts keep their names, a text that is
    new takes the number after those in use, and a number that was not handed out spells nothing. -/
theorem names_stand_for_texts (calls later : List Call)
    (hroom : (knownAfter (calls.map Call.text)).card ≤ nameBound) :
    ∃ names, (new.performAll calls).1 = names.map .ok ∧ names.length = calls.length
      ∧ (∀ p ∈ calls.zip names, ∀ q ∈ calls.zip names, p.2 = q.2 ↔ p.1.text = q.1.text)
      ∧ (∀ p ∈ calls.zip names, (new.performAll calls).2.lookup p.2 = p.1.text
          ∧ ((new.performAll calls).2.performAll later).2.lookup p.2 = p.1.text)
      ∧ (∀ p ∈ calls.zip names, (p.1.text = "" → p.2 = .empty) ∧ (p.1.text = "..." → p.2 = .variadic))
      ∧ (∀ (i : Nat) call n, (calls.zip names)[i]? = some (call, n) →
          call.text ∉ knownAfter ((calls.take i).map Call.text) →
            n.raw = (knownAfter ((calls.take i).map Call.text)).card)
      ∧ (new.performAll calls).2.size = (knownAfter (calls.map Call.text)).card
      ∧ ∀ n : Name, (new.performAll calls).2.size ≤ n.raw →
          (new.performAll calls).2.lookup n = "<unknown>" := by
  have hknown : ∀ texts : List String, new.known ∪ texts.toFinset = knownAfter texts := by
    intro texts
    rw [known_new]
    simp [knownAfter]
  obtain ⟨names, hnames, hall⟩ :=
    answersAll_performAll calls mirrored_new (by rwa [hknown])
  have hspelled : ∀ p ∈ calls.zip names,
      (new.performAll calls).2.texts[p.2.raw]? = some p.1.text :=
    fun p hp => List.forall₂_zip hall.spelled hp
  have hreserved : ∀ n s, new.texts[n.raw]? = some s →
      ∀ p ∈ calls.zip names, p.1.text = s → p.2 = n := by
    intro n s hn p hp htext
    exact hall.mirrored.name_unique (htext ▸ hspelled p hp) (grows_performAll calls _ _ hn)
  refine ⟨names, hnames, hall.spelled.length_eq.symm, ?_, ?_, ?_, ?_, ?_, ?_⟩
  · intro p hp q hq
    constructor
    · intro hname
      have hsame := hspelled p hp
      rw [hname, hspelled q hq] at hsame
      exact (Option.some.inj hsame).symm
    · intro htext
      exact hall.mirrored.name_unique (hspelled p hp) (htext ▸ hspelled q hq)
  · intro p hp
    exact ⟨lookup_eq (hspelled p hp), lookup_eq (grows_performAll later _ _ (hspelled p hp))⟩
  · exact fun p hp => ⟨hreserved .empty "" rfl p hp, hreserved .variadic "..." rfl p hp⟩
  · intro i call n hi hnew
    rw [← hknown] at hnew ⊢
    exact hall.dense i call n hi hnew
  · rw [hall.mirrored.size_eq_card, hall.known_eq, hknown]
  · exact fun n hn => lookup_of_size_le hn

/-- Asked for one text twice, and for both reserved ones. -/
def askedTwice : List Call := [.intern "x", .tryIntern "", .intern "x", .tryIntern "..."]

theorem names_stand_for_texts_asked_twice :
    (knownAfter (askedTwice.map Call.text)).card ≤ nameBound
      ∧ ∃ x y, (new.performAll askedTwice).1 = [.ok x, .ok .empty, .ok y, .ok .variadic]
        ∧ x = y ∧ x.raw = 2 ∧ (new.performAll askedTwice).2.size = 3
        ∧ ((new.performAll askedTwice).2.performAll [.intern "z"]).2.lookup x = "x" := by
  have hroom : (knownAfter (askedTwice.map Call.text)).card ≤ nameBound := by decide
  refine ⟨hroom, ?_⟩
  obtain ⟨names, hnames, hlen, heq, hlookup, hreserved, hdense, hsize, -⟩ :=
    names_stand_for_texts askedTwice [.intern "z"] hroom
  match names, hlen with
  | [x, e, y, v], _ =>
    obtain rfl : e = .empty := (hreserved (.tryIntern "", e) (by simp [askedTwice])).1 rfl
    obtain rfl : v = .variadic := (hreserved (.tryIntern "...", v) (by simp [askedTwice])).2 rfl
    refine ⟨x, y, hnames, ?_, ?_, hsize.trans (by decide), ?_⟩
    · exact (heq (.intern "x", x) (by simp [askedTwice]) (.intern "x", y) (by simp [askedTwice])).mpr rfl
    · exact (hdense 0 (.intern "x") x rfl (by decide)).trans (by decide)
    · exact (hlookup (.intern "x", x) (by simp [askedTwice])).2

end Interner

end ScopeCall
