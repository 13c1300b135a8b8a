import Mathlib.Data.Finset.Card
import Scriptlet.Heap.Contents
import Scriptlet.Proofs.Each
import Scriptlet.Proofs.Heap.Nesting

namespace Scriptlet.Heap

variable {h : Heap} {a b : ArrayId}

def nestedIn (h : Heap) (a : ArrayId) : Finset Nat :=
  (Finset.range h.size).filter fun i => h.reaches (.array a) ⟨i⟩

theorem mem_nestedIn {i : Nat} : i ∈ h.nestedIn a ↔ i < h.size ∧ Nested h ⟨i⟩ a := by
  simp [nestedIn, reaches_array_iff]

theorem card_nestedIn_le (h : Heap) (a : ArrayId) : (h.nestedIn a).card ≤ h.size := by
  have hsubset : h.nestedIn a ⊆ Finset.range h.size := Finset.filter_subset _ _
  simpa using Finset.card_le_card hsubset

/-- What an array holds has strictly less nested in it, unless the array is nested in that. -/
theorem card_nestedIn_lt (hchild : b ∈ h.children a) (hnot : ¬ Nested h a b) :
    (h.nestedIn b).card < (h.nestedIn a).card := by
  apply Finset.card_lt_card
  rw [Finset.ssubset_iff_of_subset]
  · have ha : a.index < h.size := index_lt_of_mem (mem_children_iff.mp hchild)
    refine ⟨a.index, ?_, ?_⟩
    · exact mem_nestedIn.mpr ⟨ha, .refl⟩
    · intro hmem
      exact hnot (mem_nestedIn.mp hmem).2
  · intro i hi
    obtain ⟨hlt, hnested⟩ := mem_nestedIn.mp hi
    exact mem_nestedIn.mpr ⟨hlt, .step hchild hnested⟩

theorem contentsWithin_scalar {v : Value} (hv : v.array? = none) (depth : Nat) :
    (h.contentsWithin depth v).isSome := by
  cases v <;> simp [contentsWithin, Value.array?] at hv ⊢

/-- Writing out goes no deeper than there are arrays nested in the value. -/
theorem contentsWithin_isSome (hacyclic : h.Acyclic) (hclosed : h.Closed) {depth : Nat}
    (ha : a.index < h.size) (hdepth : (h.nestedIn a).card ≤ depth) :
    (h.contentsWithin depth (.array a)).isSome := by
  induction depth generalizing a with
  | zero =>
    have hself : a.index ∈ h.nestedIn a := mem_nestedIn.mpr ⟨ha, .refl⟩
    have hpositive := Finset.card_pos.mpr ⟨_, hself⟩
    omega
  | succ depth ih =>
    have helements : ∀ v ∈ h.elements a, (h.contentsWithin depth v).isSome := by
      intro v hv
      cases hscalar : v.array? with
      | none => exact contentsWithin_scalar hscalar depth
      | some b =>
        obtain rfl : v = .array b := by cases v <;> cases hscalar; rfl
        have hchild : b ∈ h.children a := mem_children_iff.mpr hv
        have hless := card_nestedIn_lt hchild (hacyclic a b hchild)
        exact ih (hclosed.index_lt hchild) (by omega)
    have hmap := isSome_mapM_iff.mpr helements
    simpa [contentsWithin] using hmap

/-- No heap has more arrays nested in one than it made, so one level more than that is deep enough. -/
theorem contents?_isSome (hacyclic : h.Acyclic) (hclosed : h.Closed) {v : Value}
    (hv : h.Knows v) : (h.contents? v).isSome := by
  unfold contents?
  cases hscalar : v.array? with
  | none => exact contentsWithin_scalar hscalar _
  | some a =>
    obtain rfl : v = .array a := by cases v <;> cases hscalar; rfl
    have hcard := card_nestedIn_le h a
    exact contentsWithin_isSome hacyclic hclosed (knows_array.mp hv) (by omega)

theorem render?_isSome (hacyclic : h.Acyclic) (hclosed : h.Closed) {v : Value}
    (hv : h.Knows v) : (h.render? v).isSome := by
  simpa [render?] using contents?_isSome hacyclic hclosed hv

theorem equal?_isSome (hacyclic : h.Acyclic) (hclosed : h.Closed) {v w : Value}
    (hv : h.Knows v) (hw : h.Knows w) : (h.equal? v w).isSome := by
  obtain ⟨c, hc⟩ := Option.isSome_iff_exists.mp (contents?_isSome hacyclic hclosed hv)
  obtain ⟨d, hd⟩ := Option.isSome_iff_exists.mp (contents?_isSome hacyclic hclosed hw)
  simp [equal?_of_contents? hc hd]

/-! ### How deep is deep enough -/

/-- Going deeper than is needed writes out the same. -/
theorem contentsWithin_mono {d e : Nat} {v : Value} {c : Contents} (hle : d ≤ e)
    (hc : h.contentsWithin d v = some c) : h.contentsWithin e v = some c := by
  induction d generalizing e v c with
  | zero => cases v <;> simp_all [contentsWithin]
  | succ d ih =>
    cases v with
    | array a =>
      obtain ⟨e, rfl⟩ := Nat.exists_eq_add_of_le' (Nat.zero_lt_of_lt hle)
      simp only [contentsWithin, Option.map_eq_some_iff] at hc ⊢
      obtain ⟨cs, hcs, rfl⟩ := hc
      exact ⟨cs, mapM_mono (fun _ _ _ => ih (Nat.le_of_succ_le_succ hle)) hcs, rfl⟩
    | _ => simpa [contentsWithin] using hc

/-- Writing an array out goes one level less deep in what it holds. -/
theorem contentsWithin_child {d : Nat} (ha : (h.contentsWithin (d + 1) (.array a)).isSome)
    (hchild : b ∈ h.children a) : (h.contentsWithin d (.array b)).isSome := by
  simp only [contentsWithin, Option.isSome_map] at ha
  exact isSome_mapM_iff.mp ha _ (mem_children_iff.mp hchild)

theorem contentsWithin_nested {d : Nat} (ha : (h.contentsWithin d (.array a)).isSome)
    (hnested : Nested h b a) : (h.contentsWithin d (.array b)).isSome := by
  induction hnested with
  | refl => exact ha
  | step hchild _ ih =>
    cases d with
    | zero => cases ha
    | succ d =>
      obtain ⟨c, hc⟩ := Option.isSome_iff_exists.mp (contentsWithin_child ha hchild)
      exact ih (by simp [contentsWithin_mono (Nat.le_succ d) hc])

/-- What can be written out is not nested in itself: it would have to be written out to any depth,
and the induction is on the one that was enough. -/
theorem not_nested_of_contentsWithin {d : Nat} (ha : (h.contentsWithin d (.array a)).isSome)
    (hchild : b ∈ h.children a) : ¬ Nested h a b := by
  induction d with
  | zero => cases ha
  | succ d ih =>
    intro hnested
    exact ih (contentsWithin_nested (contentsWithin_child ha hchild) hnested) hnested

/-- What can be written out at some depth can be written out as deep as there are arrays nested in
it. -/
theorem contentsWithin_card {d : Nat} {c : Contents} (ha : h.contentsWithin d (.array a) = some c) :
    h.contentsWithin ((h.nestedIn a).card + 1) (.array a) = some c := by
  induction d generalizing a c with
  | zero => cases ha
  | succ d ih =>
    have hwithin : (h.contentsWithin (d + 1) (.array a)).isSome := by simp [ha]
    have helements : ∀ v ∈ h.elements a, ∀ c, h.contentsWithin d v = some c →
        h.contentsWithin (h.nestedIn a).card v = some c := by
      intro v hv c hc
      cases v with
      | array b =>
        have hchild : b ∈ h.children a := mem_children_iff.mpr hv
        have hless := card_nestedIn_lt hchild (not_nested_of_contentsWithin hwithin hchild)
        exact contentsWithin_mono hless (ih hc)
      | _ => simpa [contentsWithin] using hc
    simp only [contentsWithin, Option.map_eq_some_iff] at ha ⊢
    obtain ⟨cs, hcs, rfl⟩ := ha
    exact ⟨cs, mapM_mono helements hcs, rfl⟩

/-- The contents of a value are what it looks like at any depth that is enough. -/
theorem contents?_of_contentsWithin {d : Nat} {v : Value} {c : Contents}
    (hc : h.contentsWithin d v = some c) : h.contents? v = some c := by
  unfold contents?
  cases v with
  | array a =>
    have hcard := card_nestedIn_le h a
    exact contentsWithin_mono (by omega) (contentsWithin_card hc)
  | _ => simpa [contentsWithin] using hc

/-- Every value can be written out, and any two can be compared. -/
def Readable (h : Heap) : Prop :=
  (∀ v, h.Knows v → (h.render? v).isSome) ∧
    ∀ v w, h.Knows v → h.Knows w → (h.equal? v w).isSome

theorem readable (hacyclic : h.Acyclic) (hclosed : h.Closed) : h.Readable :=
  ⟨fun _ => render?_isSome hacyclic hclosed, fun _ _ => equal?_isSome hacyclic hclosed⟩

end Scriptlet.Heap
