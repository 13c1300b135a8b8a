import Mathlib.Data.List.Forall2
import Scriptlet.Heap.Basic
import Scriptlet.Proofs.Each
import Scriptlet.Proofs.Heap.WrittenOut

/-!
Heaps that are the same up to the identity of their arrays. A renaming pairs arrays of one heap with
arrays of another, one to one; what it does not pair does not count. Two heaps agree on it when
partners hold the same values place by place, an array standing for its partner. Whatever can be asked
of arrays then has the same answer in both heaps, and whatever is done to both leaves them in
agreement: arrays that are made at the same time become partners.
-/

namespace Scriptlet

inductive Alike {ε α β : Type} (R : α → β → Prop) : Except ε α → Except ε β → Prop where
  | ok {a : α} {b : β} : R a b → Alike R (.ok a) (.ok b)
  | error (e : ε) : Alike R (.error e) (.error e)

namespace Alike

variable {ε α β γ δ : Type} {R : α → β → Prop} {S : γ → δ → Prop}
variable {x : Except ε α} {y : Except ε β}

theorem imp {R' : α → β → Prop} (h : Alike R x y) (himp : ∀ {a b}, R a b → R' a b) :
    Alike R' x y := by
  cases h with
  | ok hab => exact .ok (himp hab)
  | error e => exact .error e

theorem bind {f : α → Except ε γ} {g : β → Except ε δ} (h : Alike R x y)
    (hnext : ∀ {a b}, R a b → Alike S (f a) (g b)) : Alike S (x >>= f) (y >>= g) := by
  cases h with
  | ok hab => exact hnext hab
  | error e => exact .error e

theorem of_eq {x y : Except ε α} (h : x = y) : Alike (fun a b => a = b) x y := by
  subst h
  cases x with
  | ok a => exact .ok rfl
  | error e => exact .error e

end Alike

/-- What is read from two arrays is alike if what they hold is related place by place. -/
theorem Heap.alike_readAt {R : Value → Value → Prop} {h g : Heap} {a b : ArrayId}
    (hitems : List.Forall₂ R (h.elements a) (g.elements b)) (index : Int) :
    Alike R (h.readAt a index) (g.readAt b index) := by
  have hlength := hitems.length_eq
  unfold Heap.readAt
  simp only [← hlength]
  split
  · exact .error _
  · by_cases hlt : index.toNat < (h.elements a).length
    · have hlt' : index.toNat < (g.elements b).length := hlength ▸ hlt
      rw [List.getElem?_eq_getElem hlt, List.getElem?_eq_getElem hlt']
      exact .ok (hitems.get hlt hlt')
    · have hge := Nat.not_lt.mp hlt
      rw [List.getElem?_eq_none hge, List.getElem?_eq_none (hlength ▸ hge)]
      exact .error _

/-- Arrays of one heap paired with arrays of another, one to one. -/
structure Renaming where
  Pairs : ArrayId → ArrayId → Prop
  oneToOne : ∀ {a b c d}, Pairs a b → Pairs c d → (a = c ↔ b = d)

namespace Renaming

variable {ρ σ τ : Renaming} {a b c d : ArrayId} {v w : Value} {vs ws : List Value} {h g : Heap}

def Extends (ρ σ : Renaming) : Prop :=
  ∀ a b, ρ.Pairs a b → σ.Pairs a b

theorem extends_refl (ρ : Renaming) : ρ.Extends ρ :=
  fun _ _ hab => hab

theorem Extends.trans (hfirst : ρ.Extends σ) (hnext : σ.Extends τ) : ρ.Extends τ :=
  fun a b hab => hnext a b (hfirst a b hab)

def symm (ρ : Renaming) : Renaming where
  Pairs a b := ρ.Pairs b a
  oneToOne hab hcd := (ρ.oneToOne hab hcd).symm

def none : Renaming where
  Pairs _ _ := False
  oneToOne hab := hab.elim

/-- A value and what stands for it in the other heap: an array's partner, and anything else itself. -/
inductive Same (ρ : Renaming) : Value → Value → Prop where
  | scalar {v : Value} : v.array? = Option.none → Same ρ v v
  | array {a b : ArrayId} : ρ.Pairs a b → Same ρ (.array a) (.array b)

abbrev SameEach (ρ : Renaming) : List Value → List Value → Prop :=
  List.Forall₂ ρ.Same

theorem Same.extend (hvw : ρ.Same v w) (hσ : ρ.Extends σ) : σ.Same v w := by
  cases hvw with
  | scalar hv => exact .scalar hv
  | array hab => exact .array (hσ _ _ hab)

theorem Same.symm (hvw : ρ.Same v w) : ρ.symm.Same w v := by
  cases hvw with
  | scalar hv => exact .scalar hv
  | array hab => exact .array hab

theorem SameEach.extend (hvs : ρ.SameEach vs ws) (hσ : ρ.Extends σ) : σ.SameEach vs ws :=
  hvs.imp fun _ _ hvw => hvw.extend hσ

theorem SameEach.symm (hvs : ρ.SameEach vs ws) : ρ.symm.SameEach ws vs :=
  (hvs.imp fun _ _ hvw => hvw.symm).flip

/-- An array among values has its partner in the same place among the others. -/
theorem SameEach.exists_array (hvs : ρ.SameEach vs ws) (ha : Value.array a ∈ vs) :
    ∃ b, Value.array b ∈ ws ∧ ρ.Pairs a b := by
  induction hvs with
  | nil => cases ha
  | cons hvw _ ih =>
    rcases List.mem_cons.mp ha with rfl | ha
    · cases hvw with
      | scalar hv => cases hv
      | array hab => exact ⟨_, List.mem_cons_self, hab⟩
    · obtain ⟨b, hb, hab⟩ := ih ha
      exact ⟨b, List.mem_cons_of_mem _ hb, hab⟩

theorem SameEach.set (hvs : ρ.SameEach vs ws) (hvw : ρ.Same v w) (i : Nat) :
    ρ.SameEach (vs.set i v) (ws.set i w) := by
  induction hvs generalizing i with
  | nil => exact .nil
  | cons hfirst hrest ih =>
    cases i with
    | zero => exact .cons hvw hrest
    | succ i => exact .cons hfirst (ih i)

/-! ### What is asked of values -/

theorem asInteger_eq (hvw : ρ.Same v w) : v.asInteger = w.asInteger := by
  cases hvw <;> rfl

theorem asText_eq (hvw : ρ.Same v w) : v.asText = w.asText := by
  cases hvw <;> rfl

theorem alike_asArray (hvw : ρ.Same v w) : Alike ρ.Pairs v.asArray w.asArray := by
  cases hvw with
  | scalar hv =>
    cases v with
    | array a => cases hv
    | _ => exact .error _
  | array hab => exact .ok hab

/-! ### Agreement of heaps -/

/-- Two heaps that agree on what is paired. Only arrays that were made are paired. -/
structure Relates (ρ : Renaming) (h g : Heap) : Prop where
  made : ∀ {a b}, ρ.Pairs a b → a.index < h.size ∧ b.index < g.size
  elements : ∀ {a b}, ρ.Pairs a b → ρ.SameEach (h.elements a) (g.elements b)

theorem none_relates (h g : Heap) : none.Relates h g :=
  ⟨fun hab => hab.elim, fun hab => hab.elim⟩

theorem Relates.symm (hρ : ρ.Relates h g) : ρ.symm.Relates g h where
  made hab := (hρ.made hab).symm
  elements hab := SameEach.symm (hρ.elements hab)

/-- What is nested in one of two partners has its partner nested in the other. -/
theorem Relates.exists_nested (hρ : ρ.Relates h g) (hab : ρ.Pairs a b)
    (hnested : Heap.Nested h c a) : ∃ d, ρ.Pairs c d ∧ Heap.Nested g d b := by
  induction hnested generalizing b with
  | refl => exact ⟨b, hab, .refl⟩
  | step hchild _ ih =>
    obtain ⟨b', hb', hpair⟩ := (hρ.elements hab).exists_array (Heap.mem_children_iff.mp hchild)
    obtain ⟨d, hcd, hin⟩ := ih hpair
    exact ⟨d, hcd, .step (Heap.mem_children_iff.mpr hb') hin⟩

theorem Relates.nested (hρ : ρ.Relates h g) (hab : ρ.Pairs a b) (hcd : ρ.Pairs c d)
    (hnested : Heap.Nested h c a) : Heap.Nested g d b := by
  obtain ⟨d', hcd', hin⟩ := hρ.exists_nested hab hnested
  exact (ρ.oneToOne hcd' hcd).mp rfl ▸ hin

/-- Looking for an array finds it in one heap just where it finds its partner in the other. -/
theorem Relates.reaches_eq (hρ : ρ.Relates h g) (hvw : ρ.Same v w) (hcd : ρ.Pairs c d) :
    h.reaches v c = g.reaches w d := by
  cases hvw with
  | scalar hv =>
    cases v with
    | array a => cases hv
    | _ => rfl
  | array hab =>
    rw [Bool.eq_iff_iff, Heap.reaches_array_iff, Heap.reaches_array_iff]
    exact ⟨hρ.nested hab hcd, hρ.symm.nested hab hcd⟩

theorem Relates.checkWrite_eq (hρ : ρ.Relates h g) (hab : ρ.Pairs a b) (hvw : ρ.Same v w)
    (index : Int) : h.checkWrite a index v = g.checkWrite b index w := by
  unfold Heap.checkWrite
  rw [hρ.reaches_eq hvw hab, (hρ.elements hab).length_eq]

theorem Relates.join_eq (hρ : ρ.Relates h g) (hab : ρ.Pairs a b) : h.join a = g.join b := by
  unfold Heap.join
  rw [mapM_eq_of_forall₂ ((hρ.elements hab).imp fun _ _ => asText_eq)]

theorem Relates.alike_readAt (hρ : ρ.Relates h g) (hab : ρ.Pairs a b) (index : Int) :
    Alike ρ.Same (h.readAt a index) (g.readAt b index) :=
  Heap.alike_readAt (hρ.elements hab) index

/-- What is the same looks the same, as far as it is written out at all. -/
theorem Relates.contentsWithin_eq (hρ : ρ.Relates h g) (hvw : ρ.Same v w) (depth : Nat) :
    h.contentsWithin depth v = g.contentsWithin depth w := by
  induction depth generalizing v w with
  | zero =>
    cases hvw with
    | scalar => cases v <;> rfl
    | array => rfl
  | succ depth ih =>
    cases hvw with
    | scalar hv =>
      cases v with
      | array a => cases hv
      | _ => rfl
    | array hab =>
      simp only [Heap.contentsWithin]
      rw [mapM_eq_of_forall₂ ((hρ.elements hab).imp fun _ _ => ih)]

/-- How many arrays the heaps hold besides makes no difference to what a value looks like. -/
theorem Relates.contents?_eq (hρ : ρ.Relates h g) (hvw : ρ.Same v w) :
    h.contents? v = g.contents? w := by
  apply Option.ext
  intro c
  constructor
  · intro hc
    exact Heap.contents?_of_contentsWithin ((hρ.contentsWithin_eq hvw _).symm.trans hc)
  · intro hc
    exact Heap.contents?_of_contentsWithin ((hρ.contentsWithin_eq hvw _).trans hc)

/-! ### What is done to both heaps -/

/-- A write to both of two partners. -/
theorem Relates.put (hρ : ρ.Relates h g) (hab : ρ.Pairs a b) (hvw : ρ.Same v w) (i : Nat) :
    ρ.Relates (h.put a i v) (g.put b i w) where
  made hcd := by simpa using hρ.made hcd
  elements := by
    intro c d hcd
    have hsame : c = a ↔ d = b := ρ.oneToOne hcd hab
    rw [Heap.elements_put, Heap.elements_put]
    by_cases hc : c = a
    · rw [if_pos hc, if_pos (hsame.mp hc)]
      exact (hρ.elements hab).set hvw i
    · rw [if_neg hc, if_neg (mt hsame.mpr hc)]
      exact hρ.elements hcd

def add (ρ : Renaming) (a b : ArrayId) (hfresh : ∀ c d, ρ.Pairs c d → c ≠ a ∧ d ≠ b) :
    Renaming where
  Pairs c d := ρ.Pairs c d ∨ c = a ∧ d = b
  oneToOne := by
    rintro c d c' d' (hcd | ⟨rfl, rfl⟩) (hcd' | ⟨rfl, rfl⟩)
    · exact ρ.oneToOne hcd hcd'
    · simp [hfresh _ _ hcd]
    · simp [(hfresh _ _ hcd').1.symm, (hfresh _ _ hcd').2.symm]
    · simp

/-- Arrays that are made with the same elements become partners. -/
theorem Relates.alloc (hρ : ρ.Relates h g) (hvs : ρ.SameEach vs ws) :
    ∃ σ, ρ.Extends σ ∧ σ.Relates (h.alloc vs).2 (g.alloc ws).2 ∧
      σ.Pairs (h.alloc vs).1 (g.alloc ws).1 := by
  have hfresh : ∀ c d, ρ.Pairs c d → c ≠ (h.alloc vs).1 ∧ d ≠ (g.alloc ws).1 := by
    intro c d hcd
    obtain ⟨hc, hd⟩ := hρ.made hcd
    constructor
    · rintro rfl
      exact Nat.lt_irrefl _ hc
    · rintro rfl
      exact Nat.lt_irrefl _ hd
  have hextends : ρ.Extends (ρ.add _ _ hfresh) := fun _ _ => .inl
  refine ⟨ρ.add _ _ hfresh, hextends, ⟨?_, ?_⟩, .inr ⟨rfl, rfl⟩⟩
  · rintro c d (hcd | ⟨rfl, rfl⟩)
    · obtain ⟨hc, hd⟩ := hρ.made hcd
      simp only [Heap.size_alloc]
      omega
    · simp [Heap.alloc, Heap.size]
  · rintro c d (hcd | ⟨rfl, rfl⟩)
    · obtain ⟨hc, hd⟩ := hρ.made hcd
      rw [Heap.elements_alloc, if_neg (Nat.ne_of_lt hc), Heap.elements_alloc,
        if_neg (Nat.ne_of_lt hd)]
      exact (hρ.elements hcd).extend hextends
    · rw [Heap.elements_alloc_self, Heap.elements_alloc_self]
      exact SameEach.extend hvs hextends

/-! ### Sequences -/

inductive SameSequence (ρ : Renaming) : Sequence → Sequence → Prop where
  | characters (t : Text) : SameSequence ρ (.characters t) (.characters t)
  | elements {vs ws : List Value} : ρ.SameEach vs ws →
    SameSequence ρ (.elements vs) (.elements ws)

variable {p q : Sequence}

theorem SameSequence.length_eq (hpq : ρ.SameSequence p q) : p.length = q.length := by
  cases hpq with
  | characters t => rfl
  | elements hvs => exact hvs.length_eq

theorem SameSequence.reverse (hpq : ρ.SameSequence p q) :
    ρ.SameSequence p.reverse q.reverse := by
  cases hpq with
  | characters t => exact .characters _
  | elements hvs => exact .elements (List.rel_reverse hvs)

theorem SameSequence.alike_suffix (hpq : ρ.SameSequence p q) (start : Int) :
    Alike ρ.SameSequence (p.suffix start) (q.suffix start) := by
  unfold Sequence.suffix
  rw [← hpq.length_eq]
  split
  · cases hpq with
    | characters t => exact .ok (.characters _)
    | elements hvs => exact .ok (.elements (List.forall₂_drop _ hvs))
  · exact .error _

theorem sameSequence_singles (t : Text) :
    ρ.SameSequence (Sequence.singles t) (Sequence.singles t) := by
  refine .elements (List.forall₂_same.mpr fun v hv => ?_)
  obtain ⟨c, -, rfl⟩ := List.mem_map.mp hv
  exact .scalar rfl

theorem Relates.alike_sequence (hρ : ρ.Relates h g) (hvw : ρ.Same v w) :
    Alike ρ.SameSequence (h.sequence v) (g.sequence w) := by
  cases hvw with
  | scalar hv =>
    cases v with
    | array a => cases hv
    | text t => exact .ok (.characters t)
    | _ => exact .error _
  | array hab => exact .ok (.elements (hρ.elements hab))

theorem Relates.alike_suffix (hρ : ρ.Relates h g) (hvw : ρ.Same v w) (start : Int) :
    Alike ρ.SameSequence (do (← h.sequence v).suffix start)
      (do (← g.sequence w).suffix start) :=
  (hρ.alike_sequence hvw).bind fun hpq => hpq.alike_suffix start

theorem Relates.length_eq (hρ : ρ.Relates h g) (hvw : ρ.Same v w) :
    h.length v = g.length w := by
  unfold Heap.length
  have hsequence := hρ.alike_sequence hvw
  generalize h.sequence v = x, g.sequence w = y at hsequence
  cases hsequence with
  | ok hpq => exact congrArg Except.ok hpq.length_eq
  | error e => rfl

/-- A sequence that is held in both heaps is the same value in them, new arrays being partners. -/
theorem Relates.hold (hρ : ρ.Relates h g) (hpq : ρ.SameSequence p q) :
    ∃ σ, ρ.Extends σ ∧ σ.Relates (h.hold p).2 (g.hold q).2 ∧
      σ.Same (h.hold p).1 (g.hold q).1 := by
  cases hpq with
  | characters t => exact ⟨ρ, ρ.extends_refl, hρ, .scalar rfl⟩
  | elements hvs =>
    obtain ⟨σ, hextends, hσ, hpair⟩ := hρ.alloc hvs
    exact ⟨σ, hextends, hσ, .array hpair⟩

/-- Copies of the arrays among values that are the same are partners again. -/
theorem Relates.copyArrays (hρ : ρ.Relates h g) (hvs : ρ.SameEach vs ws) :
    ∃ σ, ρ.Extends σ ∧ σ.Relates (h.copyArrays vs).2 (g.copyArrays ws).2 ∧
      σ.SameEach (h.copyArrays vs).1 (g.copyArrays ws).1 := by
  induction vs generalizing ρ h g ws with
  | nil =>
    cases hvs
    exact ⟨ρ, ρ.extends_refl, hρ, .nil⟩
  | cons v vs ih =>
    cases hvs with
    | cons hvw hrest =>
      cases hvw with
      | scalar hv =>
        obtain ⟨σ, hextends, hσ, hcopies⟩ := ih hρ hrest
        cases v with
        | array a => cases hv
        | _ => exact ⟨σ, hextends, hσ, .cons (.scalar hv) hcopies⟩
      | array hab =>
        obtain ⟨σ, hfirst, hσ, hpair⟩ := hρ.alloc (hρ.elements hab)
        obtain ⟨τ, hnext, hτ, hcopies⟩ := ih hσ (SameEach.extend hrest hfirst)
        exact ⟨τ, hfirst.trans hnext, hτ, .cons (.array (hnext _ _ hpair)) hcopies⟩

end Renaming

end Scriptlet
