import Scriptlet.Heap.Element

namespace Scriptlet.Heap

variable {h : Heap} {a b c t : ArrayId}

/-- Only an array that was made has elements. -/
theorem index_lt_of_mem {v : Value} (hv : v ∈ h.elements a) : a.index < h.size := by
  rcases Nat.lt_or_ge a.index h.size with hin | hout
  · exact hin
  · simp only [size] at hout
    simp [elements, Array.getD_eq_getD_getElem?, hout] at hv

theorem mem_children_iff : b ∈ h.children a ↔ Value.array b ∈ h.elements a := by
  unfold children
  constructor
  · intro hb
    obtain ⟨v, hv, hvb⟩ := List.mem_filterMap.mp hb
    cases v <;> cases hvb
    exact hv
  · intro hb
    exact List.mem_filterMap.mpr ⟨.array b, hb, rfl⟩

theorem Nested.trans (hab : Nested h a b) (hbc : Nested h b c) : Nested h a c := by
  induction hbc with
  | refl => exact hab
  | step hchild _ ih => exact .step hchild ih

theorem Nested.child (hb : b ∈ h.children a) : Nested h b a :=
  .step hb .refl

/-! ### Writing an element -/

theorem elements_put (h : Heap) (a b : ArrayId) (index : Nat) (v : Value) :
    (h.put a index v).elements b =
      if b = a then (h.elements a).set index v else h.elements b := by
  unfold put
  rw [elements_replace]
  by_cases hba : b = a
  · by_cases hsize : a.index < h.size
    · simp [hba, hsize]
    · have hnone : h.elements a = [] := by
        simp [elements, size, Array.getD_eq_getD_getElem?] at hsize ⊢
        simp [hsize]
      simp [hba, hsize, hnone]
  · simp [hba]

@[simp] theorem size_put (h : Heap) (a : ArrayId) (index : Nat) (v : Value) :
    (h.put a index v).size = h.size := by
  simp [put]

theorem length_elements_put (h : Heap) (a b : ArrayId) (index : Nat) (v : Value) :
    ((h.put a index v).elements b).length = (h.elements b).length := by
  rw [elements_put]
  split
  · rename_i hba
    rw [List.length_set, hba]
  · rfl

theorem mem_elements_put {index : Nat} {v w : Value} (hw : w ∈ (h.put a index v).elements b) :
    w ∈ h.elements b ∨ b = a ∧ w = v := by
  rw [elements_put] at hw
  split at hw
  · rename_i hba
    rcases List.mem_or_eq_of_mem_set hw with hold | hnew
    · exact .inl (hba ▸ hold)
    · exact .inr ⟨hba, hnew⟩
  · exact .inl hw

theorem mem_children_put {index : Nat} {v : Value} (hb : b ∈ (h.put a index v).children c) :
    b ∈ h.children c ∨ c = a ∧ v = .array b := by
  rw [mem_children_iff] at hb ⊢
  rcases mem_elements_put hb with hold | ⟨hca, hnew⟩
  · exact .inl hold
  · exact .inr ⟨hca, hnew.symm⟩

/-- Whatever a write nests anew is nested by way of the two arrays of the write. -/
theorem nested_put {index : Nat} {v : Value} (hnested : Nested (h.put a index v) t b) :
    Nested h t b ∨ ∃ d, v = .array d ∧ Nested h a b ∧ Nested h t d := by
  induction hnested with
  | refl => exact .inl .refl
  | step hchild _ ih =>
    rcases mem_children_put hchild with hold | ⟨rfl, rfl⟩
    · rcases ih with hdirect | ⟨d, hd, hin, hto⟩
      · exact .inl (.step hold hdirect)
      · exact .inr ⟨d, hd, .step hold hin, hto⟩
    · rcases ih with hdirect | ⟨d, hd, -, hto⟩
      · exact .inr ⟨_, rfl, .refl, hdirect⟩
      · exact .inr ⟨d, hd, .refl, hto⟩

/-- A write that passes the check leaves the heap without cycles. -/
theorem Acyclic.put {index : Nat} {v : Value} (hacyclic : h.Acyclic)
    (hnot : ∀ d, v = .array d → ¬ Nested h a d) : (h.put a index v).Acyclic := by
  intro x y hchild hnested
  rcases nested_put hnested with hdirect | ⟨d, rfl, hin, hto⟩
  · rcases mem_children_put hchild with hold | ⟨rfl, rfl⟩
    · exact hacyclic x y hold hdirect
    · exact hnot y rfl hdirect
  · rcases mem_children_put hchild with hold | ⟨rfl, hsame⟩
    · have hax : Nested h a x := .step hold hin
      exact hnot d rfl (hax.trans hto)
    · cases hsame
      exact hnot _ rfl hin

/-- What an array is nested in stays so when an element of that array is written: the way down to it
ends before it comes to its elements. -/
theorem Nested.put {index : Nat} {v : Value} (hnested : Nested h a b) :
    Nested (h.put a index v) a b := by
  induction hnested with
  | refl => exact .refl
  | @step b c hchild _ ih =>
    by_cases hba : b = a
    · rw [hba]
      exact .refl
    · apply Nested.step _ ih
      rw [mem_children_iff] at hchild ⊢
      rw [elements_put, if_neg hba]
      exact hchild

/-- A write that puts an array inside itself makes a cycle. -/
theorem not_acyclic_put {index : Nat} (hindex : index < (h.elements a).length)
    (hnested : Nested h a b) : ¬ (h.put a index (.array b)).Acyclic := by
  intro hacyclic
  have hchild : b ∈ (h.put a index (.array b)).children a := by
    rw [mem_children_iff, elements_put, if_pos rfl]
    exact List.mem_set hindex (.array b)
  exact hacyclic a b hchild hnested.put

/-- A write that is checked does not put an array inside itself. -/
theorem not_nested_of_checkWrite {index : Int} {v : Value}
    (hcheck : h.checkWrite a index v = .ok ()) : ∀ d, v = .array d → ¬ Nested h a d := by
  rintro d rfl hnested
  have hreaches : h.reaches (.array d) a = true := reaches_array_iff.mpr hnested
  simp [checkWrite, hreaches] at hcheck

/-! ### Making an array -/

theorem elements_alloc_self (h : Heap) (items : List Value) :
    (h.alloc items).2.elements (h.alloc items).1 = items := by
  rw [elements_alloc]
  simp [alloc]

def Knows (h : Heap) (v : Value) : Prop :=
  ∀ a, v.array? = some a → a.index < h.size

instance (h : Heap) (v : Value) : Decidable (h.Knows v) :=
  decidable_of_iff (∀ a ∈ v.array?, a.index < h.size) Iff.rfl

/-- Only arrays that were made are held in arrays. -/
def Closed (h : Heap) : Prop :=
  ∀ a, ∀ v ∈ h.elements a, h.Knows v

theorem knows_array : h.Knows (.array a) ↔ a.index < h.size := by
  simp [Knows, Value.array?]

theorem knows_alloc (h : Heap) (items : List Value) :
    (h.alloc items).2.Knows (.array (h.alloc items).1) := by
  simp [knows_array, alloc, size]

theorem Knows.mono {g : Heap} {v : Value} (hv : h.Knows v) (hsize : h.size ≤ g.size) :
    g.Knows v := by
  intro a ha
  exact Nat.lt_of_lt_of_le (hv a ha) hsize

theorem Closed.index_lt (hclosed : h.Closed) (hb : b ∈ h.children a) : b.index < h.size :=
  knows_array.mp (hclosed a _ (mem_children_iff.mp hb))

theorem Closed.alloc {items : List Value} (hclosed : h.Closed) (hitems : ∀ v ∈ items, h.Knows v) :
    (h.alloc items).2.Closed := by
  intro x v hv
  have hsize : h.size ≤ (h.alloc items).2.size := by simp
  rw [elements_alloc] at hv
  split at hv
  · exact (hitems v hv).mono hsize
  · exact (hclosed x v hv).mono hsize

theorem Closed.put {index : Nat} {v : Value} (hclosed : h.Closed) (hv : h.Knows v) :
    (h.put a index v).Closed := by
  intro x w hw
  have hsize : h.size ≤ (h.put a index v).size := by simp
  rcases mem_elements_put hw with hold | ⟨-, rfl⟩
  · exact (hclosed x w hold).mono hsize
  · exact hv.mono hsize

theorem children_alloc_of_lt {items : List Value} (hb : b.index < h.size) :
    (h.alloc items).2.children b = h.children b := by
  have hne : b.index ≠ h.size := Nat.ne_of_lt hb
  simp [children, elements_alloc, hne]

/-- A new array changes nothing for those made before. -/
theorem nested_alloc {items : List Value} (hclosed : h.Closed) (hb : b.index < h.size)
    (hnested : Nested (h.alloc items).2 t b) : Nested h t b ∧ t.index < h.size := by
  induction hnested with
  | refl => exact ⟨.refl, hb⟩
  | step hchild _ ih =>
    rw [children_alloc_of_lt hb] at hchild
    obtain ⟨hin, hlt⟩ := ih (hclosed.index_lt hchild)
    exact ⟨.step hchild hin, hlt⟩

/-- A new array is nested in none, so no cycle goes through it. -/
theorem Acyclic.alloc {items : List Value} (hacyclic : h.Acyclic) (hclosed : h.Closed)
    (hitems : ∀ v ∈ items, h.Knows v) : (h.alloc items).2.Acyclic := by
  intro x y hchild hnested
  have hcases : Value.array y ∈ items ∧ x.index = h.size ∨ y ∈ h.children x := by
    rw [mem_children_iff, elements_alloc] at hchild
    split at hchild
    · rename_i hx
      exact .inl ⟨hchild, hx⟩
    · exact .inr (mem_children_iff.mpr hchild)
  rcases hcases with ⟨hitem, hx⟩ | hold
  · have hy : y.index < h.size := knows_array.mp (hitems _ hitem)
    have hlt := (nested_alloc hclosed hy hnested).2
    omega
  · exact hacyclic x y hold (nested_alloc hclosed (hclosed.index_lt hold) hnested).1

/-! ### Earlier arrays in a later heap -/

def Extends (earlier later : Heap) : Prop :=
  earlier.size ≤ later.size ∧ ∀ a, a.index < earlier.size → later.elements a = earlier.elements a

theorem extends_refl (h : Heap) : h.Extends h :=
  ⟨Nat.le_refl _, fun _ _ => rfl⟩

theorem Extends.trans {g f : Heap} (hfirst : h.Extends g) (hnext : g.Extends f) :
    h.Extends f := by
  refine ⟨Nat.le_trans hfirst.1 hnext.1, ?_⟩
  intro a ha
  have hmiddle : a.index < g.size := Nat.lt_of_lt_of_le ha hfirst.1
  exact (hnext.2 a hmiddle).trans (hfirst.2 a ha)

theorem extends_alloc (h : Heap) (items : List Value) : h.Extends (h.alloc items).2 := by
  refine ⟨by simp, ?_⟩
  intro a ha
  rw [elements_alloc, if_neg (Nat.ne_of_lt ha)]

theorem Extends.elements_eq {g : Heap} (hext : h.Extends g) (ha : h.Knows (.array a)) :
    g.elements a = h.elements a :=
  hext.2 a (knows_array.mp ha)

/-- An array that is made holds its elements as long as nothing is written. -/
theorem elements_alloc_of_extends {items : List Value} {g : Heap}
    (hext : (h.alloc items).2.Extends g) : g.elements (h.alloc items).1 = items :=
  (hext.elements_eq (knows_alloc h items)).trans (elements_alloc_self h items)

/-- The arrays of an earlier heap are there in a later one, with the lengths that they had. -/
def KeepsLengths (earlier later : Heap) : Prop :=
  earlier.size ≤ later.size ∧
    ∀ a, a.index < earlier.size → (later.elements a).length = (earlier.elements a).length

theorem Extends.keepsLengths {g f : Heap} (h : g.Extends f) : g.KeepsLengths f := by
  refine ⟨h.1, ?_⟩
  intro a ha
  rw [h.2 a ha]

theorem keepsLengths_refl (h : Heap) : h.KeepsLengths h :=
  h.extends_refl.keepsLengths

theorem KeepsLengths.trans {g f : Heap} (hfirst : h.KeepsLengths g) (hnext : g.KeepsLengths f) :
    h.KeepsLengths f := by
  refine ⟨Nat.le_trans hfirst.1 hnext.1, ?_⟩
  intro a ha
  have hmiddle : a.index < g.size := Nat.lt_of_lt_of_le ha hfirst.1
  exact (hnext.2 a hmiddle).trans (hfirst.2 a ha)

theorem keepsLengths_alloc (h : Heap) (items : List Value) : h.KeepsLengths (h.alloc items).2 :=
  (h.extends_alloc items).keepsLengths

theorem keepsLengths_put (h : Heap) (a : ArrayId) (index : Nat) (v : Value) :
    h.KeepsLengths (h.put a index v) := by
  refine ⟨by simp, ?_⟩
  intro b _
  exact length_elements_put h a b index v

end Scriptlet.Heap
