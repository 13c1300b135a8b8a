import Mathlib.Data.List.Forall2
import Scriptlet.Proofs.Heap.Renaming
import Scriptlet.Proofs.Heap.Sequence

/-!
Equality of values. Two arrays are equal when they hold equal values place by place; anything else is
equal to itself only. On a heap without cycles this law settles every comparison, so equality is that
of the contents written out, and therefore an equivalence. It leaves open which arrays hold the
contents. Nothing that can be asked of a value tells it from an equal one, and what is made of equal
values is equal again (`equality_is_congruence`).
-/

namespace Scriptlet

def Renaming.made (h : Heap) : Renaming where
  Pairs a b := a = b ∧ a.index < h.size
  oneToOne := by
    rintro a b c d ⟨rfl, -⟩ ⟨rfl, -⟩
    exact Iff.rfl

namespace Heap

variable {h g : Heap} {a b : ArrayId} {v w : Value} {vs ws : List Value}

def Equals (h : Heap) (v w : Value) : Prop :=
  h.equal? v w = some true

inductive Matches (h : Heap) (R : Value → Value → Prop) : Value → Value → Prop where
  | scalar {v : Value} : v.array? = none → Matches h R v v
  | array {a b : ArrayId} : List.Forall₂ R (h.elements a) (h.elements b) →
    Matches h R (.array a) (.array b)

theorem equals_scalar (hv : v.array? = none) : h.Equals v v := by
  cases v <;> simp_all [Equals, equal?, equalWithin?, Value.array?]

/-- What is no array is equal to itself only. -/
theorem eq_of_equals (hv : v.array? = none) (hvw : h.Equals v w) : v = w := by
  cases v <;> cases w <;> simp_all [Equals, equal?, equalWithin?, Value.array?]

/-! ### Contents -/

/-- What an array looks like is settled by what its elements look like. -/
theorem contents?_array (h : Heap) (a : ArrayId) :
    h.contents? (.array a) = ((h.elements a).mapM h.contents?).map .array := by
  apply Option.ext
  intro c
  constructor
  · intro hc
    simp only [contents?, contentsWithin, Option.map_eq_some_iff] at hc
    obtain ⟨cs, hcs, rfl⟩ := hc
    have hmap : (h.elements a).mapM h.contents? = some cs :=
      mapM_mono (fun _ _ _ => contentsWithin_mono (Nat.le_succ _)) hcs
    rw [hmap]
    rfl
  · intro hc
    have hdeeper : h.contentsWithin (h.size + 2) (.array a) = some c := hc
    exact contents?_of_contentsWithin hdeeper

/-- What is made later changes nothing about how a value looks. -/
theorem contents?_of_extends (hclosed : h.Closed) (hext : h.Extends g) (hv : h.Knows v) :
    g.contents? v = h.contents? v := by
  have hself : ∀ w, h.Knows w → (Renaming.made h).Same w w := by
    intro w hw
    cases w with
    | array a => exact .array ⟨rfl, knows_array.mp hw⟩
    | _ => exact .scalar rfl
  have hrelates : (Renaming.made h).Relates h g := by
    refine ⟨?_, ?_⟩
    · rintro a b ⟨rfl, ha⟩
      exact ⟨ha, Nat.lt_of_lt_of_le ha hext.1⟩
    · rintro a b ⟨rfl, ha⟩
      rw [hext.2 a ha]
      exact List.forall₂_same.mpr fun w hw => hself w (hclosed a w hw)
  exact (hrelates.contents?_eq (hself v hv)).symm

/-! ### The law of equality -/

/-- A heap whose arrays hold only arrays that were made, and are not nested in what they hold. -/
structure Orderly (h : Heap) : Prop where
  acyclic : h.Acyclic
  closed : h.Closed

namespace Orderly

theorem alloc (hh : h.Orderly) (hvs : ∀ v ∈ vs, h.Knows v) : (h.alloc vs).2.Orderly :=
  ⟨hh.acyclic.alloc hh.closed hvs, hh.closed.alloc hvs⟩

theorem contents?_isSome (hh : h.Orderly) (hv : h.Knows v) : (h.contents? v).isSome :=
  Heap.contents?_isSome hh.acyclic hh.closed hv

/-- Values are equal if they look the same. -/
theorem equals_iff_contents (hh : h.Orderly) (hv : h.Knows v) (hw : h.Knows w) :
    h.Equals v w ↔ h.contents? v = h.contents? w := by
  obtain ⟨c, hc⟩ := Option.isSome_iff_exists.mp (hh.contents?_isSome hv)
  obtain ⟨d, hd⟩ := Option.isSome_iff_exists.mp (hh.contents?_isSome hw)
  unfold Equals
  rw [equal?_of_contents? hc hd, hc, hd]
  simp

theorem equals_self (hh : h.Orderly) (hv : h.Knows v) : h.Equals v v :=
  (hh.equals_iff_contents hv hv).mpr rfl

/-- Values are equal if they hold the very same elements. -/
theorem equals_of_sequence_eq (hh : h.Orderly) (hv : h.Knows v) (hw : h.Knows w) {s : Sequence}
    (hs : h.sequence v = .ok s) (hs' : h.sequence w = .ok s) : h.Equals v w := by
  apply (hh.equals_iff_contents hv hw).mpr
  cases s with
  | characters t => rw [sequence_eq_characters_iff.mp hs, sequence_eq_characters_iff.mp hs']
  | elements items =>
    obtain ⟨a, rfl, rfl⟩ := sequence_eq_elements_iff.mp hs
    obtain ⟨b, rfl, helements⟩ := sequence_eq_elements_iff.mp hs'
    rw [contents?_array, contents?_array, helements]

theorem equals_array_iff (hh : h.Orderly) (ha : h.Knows (.array a)) (hb : h.Knows (.array b)) :
    h.Equals (.array a) (.array b) ↔ List.Forall₂ h.Equals (h.elements a) (h.elements b) := by
  have hclosed : ∀ v ∈ h.elements a, (h.contents? v).isSome := fun v hv =>
    hh.contents?_isSome (hh.closed a v hv)
  have hinjective : Function.Injective (Option.map Contents.array) :=
    Option.map_injective fun _ _ => Contents.array.inj
  rw [hh.equals_iff_contents ha hb, contents?_array, contents?_array, hinjective.eq_iff,
    mapM_eq_mapM_iff hclosed]
  apply forall₂_congr_of_mem
  intro v hv w hw
  exact (hh.equals_iff_contents (hh.closed a v hv) (hh.closed b w hw)).symm

/-- Values of which one at least is no array are equal only if they are the same. -/
theorem equals_iff_matches (hh : h.Orderly) (hv : h.Knows v) (hw : h.Knows w) :
    h.Equals v w ↔ h.Matches h.Equals v w := by
  constructor
  · intro hvw
    cases v with
    | array a =>
      cases w with
      | array b => exact .array ((hh.equals_array_iff hv hw).mp hvw)
      | _ => simp [Equals, equal?, equalWithin?] at hvw
    | _ =>
      obtain rfl := eq_of_equals rfl hvw
      exact .scalar rfl
  · intro hmatches
    cases hmatches with
    | scalar hscalar => exact equals_scalar hscalar
    | array helements => exact (hh.equals_array_iff hv hw).mpr helements

theorem equals_of_extends (hh : h.Orderly) (hg : g.Orderly) (hext : h.Extends g) (hv : h.Knows v)
    (hw : h.Knows w) : g.Equals v w ↔ h.Equals v w := by
  rw [hg.equals_iff_contents (hv.mono hext.1) (hw.mono hext.1), hh.equals_iff_contents hv hw,
    contents?_of_extends hh.closed hext hv, contents?_of_extends hh.closed hext hw]

theorem equivalence (hh : h.Orderly) :
    Equivalence fun v w : { v // h.Knows v } => h.Equals v w where
  refl v := hh.equals_self v.2
  symm := by
    rintro ⟨v, hv⟩ ⟨w, hw⟩ hvw
    exact (hh.equals_iff_contents hw hv).mpr ((hh.equals_iff_contents hv hw).mp hvw).symm
  trans := by
    rintro ⟨u, hu⟩ ⟨v, hv⟩ ⟨w, hw⟩ huv hvw
    rw [hh.equals_iff_contents] at huv hvw ⊢
    exact huv.trans hvw
    all_goals assumption

/-! ### What equal values have in common -/

/-- Arrays that are made of equal values are equal, although they are made one after the other. -/
theorem equals_alloc (hh : h.Orderly) (hvs : ∀ v ∈ vs, h.Knows v) (hws : ∀ w ∈ ws, h.Knows w)
    (heach : List.Forall₂ h.Equals vs ws) :
    let made := h.allocValue vs
    let next := made.2.allocValue ws
    next.2.Equals made.1 next.1 := by
  let made := h.alloc vs
  let next := made.2.alloc ws
  have hfirst : h.Extends made.2 := h.extends_alloc vs
  have hsecond : made.2.Extends next.2 := made.2.extends_alloc ws
  have hmade : made.2.Orderly := hh.alloc hvs
  have hnext : next.2.Orderly := hmade.alloc fun w hw => (hws w hw).mono hfirst.1
  have helements : next.2.elements made.1 = vs := elements_alloc_of_extends hsecond
  have helements' : next.2.elements next.1 = ws := elements_alloc_self made.2 ws
  have hknows : next.2.Knows (.array made.1) := (knows_alloc h vs).mono hsecond.1
  have hknows' : next.2.Knows (.array next.1) := knows_alloc made.2 ws
  have hequal : List.Forall₂ next.2.Equals vs ws := by
    apply (forall₂_congr_of_mem ?_).mpr heach
    intro v hv w hw
    exact hh.equals_of_extends hnext (hfirst.trans hsecond) (hvs v hv) (hws w hw)
  apply (hnext.equals_array_iff hknows hknows').mpr
  rwa [helements, helements']

end Orderly

/-- That two operations, of which the second is done after the first, give equal values or fail
alike. -/
inductive GiveEqual (h : Heap) (first next : Heap → Except ValueError (Value × Heap)) : Prop where
  | values {v w : Value} {g f : Heap} : first h = .ok (v, g) → next g = .ok (w, f) →
    f.Equals v w → GiveEqual h first next
  | failures {reason : ValueError} : first h = .error reason → next h = .error reason →
    GiveEqual h first next

/-- What makes no array is the same when it is done again. -/
theorem giveEqual_self {op : Heap → Except ValueError (Value × Heap)}
    (hstill : ∀ v g, op h = .ok (v, g) → v.array? = none ∧ g = h) : h.GiveEqual op op := by
  cases hop : op h with
  | error reason => exact .failures hop hop
  | ok result =>
    obtain ⟨v, g⟩ := result
    obtain ⟨hscalar, rfl⟩ := hstill v g hop
    exact .values hop hop (equals_scalar hscalar)

/-- That two values cannot be told apart: whatever is asked of them has the same answer, and whatever
is made of them is equal again. -/
structure Indistinct (h : Heap) (v w : Value) : Prop where
  kind : v.kind = w.kind
  render? : h.render? v = h.render? w
  length : h.length v = h.length w
  join : ∀ a b, v = .array a → w = .array b → h.join a = h.join b
  reverse : h.GiveEqual (·.reverse v) (·.reverse w)
  slice : ∀ start, h.GiveEqual (·.slice v start) (·.slice w start)
  readAt : ∀ a b, v = .array a → w = .array b → ∀ index,
    Alike h.Equals (h.readAt a index) (h.readAt b index)

/-- What is no array has no array made of it. -/
theorem scalar_of_reverse (hv : v.array? = none) (hreverse : h.reverse v = .ok (w, g)) :
    w.array? = none ∧ g = h := by
  cases v with
  | text t =>
    cases hreverse
    exact ⟨rfl, rfl⟩
  | array a => cases hv
  | _ => cases hreverse

theorem scalar_of_slice (hv : v.array? = none) {start : Int}
    (hslice : h.slice v start = .ok (w, g)) : w.array? = none ∧ g = h := by
  cases v with
  | text t =>
    rw [slice_of_sequence rfl, Sequence.suffix] at hslice
    split at hslice
    · cases hslice
      exact ⟨rfl, rfl⟩
    · cases hslice
  | array a => cases hv
  | _ => cases hslice

theorem indistinct_self (hv : v.array? = none) : h.Indistinct v v where
  kind := rfl
  render? := rfl
  length := rfl
  join := by
    rintro a b rfl _
    cases hv
  reverse := giveEqual_self fun _ _ => scalar_of_reverse hv
  slice start := giveEqual_self fun _ _ => scalar_of_slice hv
  readAt := by
    rintro a b rfl _
    cases hv

theorem asText_eq_of_equals (hvw : h.Equals v w) : v.asText = w.asText := by
  cases v with
  | array a => cases w <;> simp_all [Equals, equal?, equalWithin?, Value.asText, Value.kind]
  | _ => rw [eq_of_equals rfl hvw]

namespace Orderly

/-- New arrays of some elements of two arrays, equal place by place. The first one that is made leaves
the second array as it was. -/
theorem giveEqual_alloc (hh : h.Orderly) (hb : h.Knows (.array b))
    {first next : Heap → Except ValueError (Value × Heap)} (hvs : vs ⊆ h.elements a)
    (hws : ws ⊆ h.elements b) (heach : List.Forall₂ h.Equals vs ws)
    (hfirst : first h = .ok (h.allocValue vs))
    (hnext : ∀ g, g.elements b = h.elements b → next g = .ok (g.allocValue ws)) :
    h.GiveEqual first next := by
  have helements : (h.allocValue vs).2.elements b = h.elements b :=
    (h.extends_alloc vs).elements_eq hb
  have hequal := hh.equals_alloc (fun v hv => hh.closed a v (hvs hv))
    (fun w hw => hh.closed b w (hws hw)) heach
  exact .values hfirst (hnext _ helements) hequal

theorem indistinct_array (hh : h.Orderly) (ha : h.Knows (.array a)) (hb : h.Knows (.array b))
    (hab : h.Equals (.array a) (.array b)) : h.Indistinct (.array a) (.array b) := by
  have heach := (hh.equals_array_iff ha hb).mp hab
  have hlength := heach.length_eq
  refine ⟨rfl, ?_, ?_, ?_, ?_, ?_, ?_⟩
  · exact congrArg (Option.map Contents.render) ((hh.equals_iff_contents ha hb).mp hab)
  · rw [length_array, length_array, hlength]
  · rintro _ _ ⟨⟩ ⟨⟩
    unfold Heap.join
    rw [mapM_eq_of_forall₂ (heach.imp fun _ _ => asText_eq_of_equals)]
  · apply hh.giveEqual_alloc hb (fun v => List.mem_reverse.mp) (fun w => List.mem_reverse.mp)
      (List.rel_reverse heach) rfl
    intro g helements
    rw [← helements]
    rfl
  · intro start
    by_cases hrange : 0 ≤ start ∧ start ≤ (h.elements a).length
    · obtain ⟨n, rfl⟩ := Int.eq_ofNat_of_zero_le hrange.1
      have hle : n ≤ (h.elements a).length := by omega
      apply hh.giveEqual_alloc hb (List.drop_subset n _) (List.drop_subset n _)
        (List.forall₂_drop n heach) (slice_of_le (h.sequence_array a) hle)
      intro g helements
      have hle' : n ≤ (g.elements b).length := by rwa [helements, ← hlength]
      rw [← helements]
      exact slice_of_le (g.sequence_array b) hle'
    · have hout : start < 0 ∨ ((h.elements a).length : Int) < start := by omega
      have hfails := slice_eq_error_iff.mpr (.inr ⟨_, length_array h a, hout, rfl⟩)
      have hfails' := slice_eq_error_iff.mpr (.inr ⟨_, length_array h b, hlength ▸ hout, rfl⟩)
      exact .failures hfails (hlength ▸ hfails')
  · rintro _ _ ⟨⟩ ⟨⟩ index
    exact alike_readAt heach index

theorem indistinct (hh : h.Orderly) (hv : h.Knows v) (hw : h.Knows w) (hvw : h.Equals v w) :
    h.Indistinct v w := by
  cases (hh.equals_iff_matches hv hw).mp hvw with
  | scalar hscalar => exact indistinct_self hscalar
  | array => exact hh.indistinct_array hv hw hvw

theorem empty : ({} : Heap).Orderly := by
  have hnone : ∀ a, ({} : Heap).elements a = [] := fun a => rfl
  refine ⟨?_, ?_⟩
  · intro a b hb
    simp [children, hnone] at hb
  · intro a v hv
    simp [hnone] at hv

end Orderly

/-- On a heap without cycles any two values can be compared, and the answer is whether they look the
same when they are written out. Place by place, arrays are equal if what they hold is; functions, like
numbers and texts, are equal only to themselves. This is an equivalence, and values that it relates
cannot be told apart. A copy of an array is equal to it and not the same array. -/
theorem equality_is_congruence (hacyclic : h.Acyclic) (hclosed : h.Closed) :
    (∀ v w, h.Knows v → h.Knows w → ∃ c d, h.contents? v = some c ∧ h.contents? w = some d ∧
      h.equal? v w = some (decide (c = d))) ∧
    (∀ v w, h.Knows v → h.Knows w → (h.Equals v w ↔ h.Matches h.Equals v w)) ∧
    (Equivalence fun v w : { v // h.Knows v } => h.Equals v w) ∧
    (∀ v w, h.Knows v → h.Knows w → h.Equals v w → h.Indistinct v w) ∧
    ∀ a, h.Knows (.array a) →
      (h.copy a).1 ≠ a ∧ (h.copy a).2.Equals (.array (h.copy a).1) (.array a) := by
  have hh : h.Orderly := ⟨hacyclic, hclosed⟩
  refine ⟨?_, ?_, hh.equivalence, ?_, ?_⟩
  · intro v w hv hw
    obtain ⟨c, hc⟩ := Option.isSome_iff_exists.mp (hh.contents?_isSome hv)
    obtain ⟨d, hd⟩ := Option.isSome_iff_exists.mp (hh.contents?_isSome hw)
    exact ⟨c, d, hc, hd, equal?_of_contents? hc hd⟩
  · exact fun v w => hh.equals_iff_matches
  · exact fun v w => hh.indistinct
  · intro a ha
    refine ⟨?_, ?_⟩
    · intro hsame
      have hindex : h.size = a.index := congrArg ArrayId.index hsame
      have hlt := knows_array.mp ha
      omega
    · have hext := h.extends_alloc (h.elements a)
      have hcopy := sequence_hold h (.elements (h.elements a))
      have hkept := (hext.sequence_eq ha).trans (h.sequence_array a)
      have hafter : (h.copy a).2.Orderly := hh.alloc (hclosed a)
      exact hafter.equals_of_sequence_eq (knows_alloc h _) (ha.mono hext.1) hcopy hkept

def twins : Heap :=
  let numbers := (({} : Heap).alloc [.integer 1]).2.alloc [.integer 1]
  let first := numbers.2.alloc [.array ⟨0⟩, .text ['x']]
  (first.2.alloc [.array ⟨1⟩, .text ['x']]).2

/-- Arrays of different arrays, all of them made on their own. -/
theorem equality_is_congruence_twins :
    twins.elements ⟨2⟩ ≠ twins.elements ⟨3⟩ ∧ twins.Equals (.array ⟨2⟩) (.array ⟨3⟩) ∧
      twins.Indistinct (.array ⟨2⟩) (.array ⟨3⟩) := by
  have hh : twins.Orderly := by
    refine (((Orderly.empty.alloc ?_).alloc ?_).alloc ?_).alloc ?_ <;> decide
  have hequals : twins.Equals (.array ⟨2⟩) (.array ⟨3⟩) := by
    unfold Equals
    decide
  have hindistinct := (equality_is_congruence hh.acyclic hh.closed).2.2.2.1
  exact ⟨by decide, hequals, hindistinct _ _ (by decide) (by decide) hequals⟩

end Heap

end Scriptlet
