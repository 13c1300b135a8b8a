import Scriptlet.Proofs.World.History

namespace Scriptlet

namespace Heap

variable {h g : Heap} {a b : ArrayId} {index : Int} {v : Value}

/-! ### Reading -/

theorem toOption_readAt (h : Heap) (a : ArrayId) (n : Nat) :
    (h.readAt a n).toOption = (h.elements a)[n]? := by
  have hnonneg : ¬ (n : Int) < 0 := by omega
  simp only [readAt, if_neg hnonneg, Int.toNat_natCast]
  cases (h.elements a)[n]? <;> rfl

theorem elements_eq_of_readAt (hread : ∀ j, g.readAt a j = h.readAt a j) :
    g.elements a = h.elements a := by
  apply List.ext_getElem?
  intro n
  rw [← toOption_readAt, ← toOption_readAt, hread]

/-- What is read at an index depends on the element there and on the length. -/
theorem readAt_congr (hlength : (g.elements a).length = (h.elements a).length)
    (helement : 0 ≤ index → (g.elements a)[index.toNat]? = (h.elements a)[index.toNat]?) :
    g.readAt a index = h.readAt a index := by
  unfold readAt
  by_cases hneg : index < 0
  · simp only [if_pos hneg, hlength]
  · simp only [if_neg hneg, hlength, helement (by omega)]

theorem eq_of_elements (hsize : g.size = h.size) (helements : ∀ a, g.elements a = h.elements a) :
    g = h := by
  obtain ⟨cells⟩ := g
  obtain ⟨others⟩ := h
  congr 1
  apply Array.ext hsize
  intro i hi hi'
  have hcell := helements ⟨i⟩
  simpa [elements, Array.getD, hi, hi'] using hcell

/-! ### Writing -/

/-- That a value is an array with the target nested in it, in zero or more steps. -/
def Contains (h : Heap) (v : Value) (target : ArrayId) : Prop :=
  ∃ b, v = .array b ∧ Nested h target b

theorem reaches_iff_contains : h.reaches v a = true ↔ h.Contains v a := by
  cases v with
  | array b =>
    rw [reaches_array_iff]
    constructor
    · intro hnested
      exact ⟨b, rfl, hnested⟩
    · rintro ⟨_, ⟨⟩, hnested⟩
      exact hnested
  | _ => simp [reaches, Contains]

structure Written (before : Heap) (a : ArrayId) (index : Int) (v : Value) (after : Heap) : Prop where
  size_eq : after.size = before.size
  length_eq : ∀ b, (after.elements b).length = (before.elements b).length
  written : after.readAt a index = .ok v
  elsewhere : ∀ b j, b ≠ a ∨ j ≠ index → after.readAt b j = before.readAt b j

theorem Written.unique {f : Heap} (hg : Written h a index v g) (hf : Written h a index v f) :
    g = f := by
  apply eq_of_elements (hg.size_eq.trans hf.size_eq.symm)
  intro b
  apply elements_eq_of_readAt
  intro j
  by_cases hplace : b ≠ a ∨ j ≠ index
  · rw [hg.elsewhere b j hplace, hf.elsewhere b j hplace]
  · obtain ⟨rfl, rfl⟩ : b = a ∧ j = index := by simpa [not_or] using hplace
    rw [hg.written, hf.written]

theorem written_put (h : Heap) (v : Value) (hnonneg : 0 ≤ index)
    (hlt : index < (h.elements a).length) : Written h a index v (h.put a index.toNat v) where
  size_eq := size_put h a index.toNat v
  length_eq b := length_elements_put h a b index.toNat v
  written := by
    have hindex : index.toNat < (h.elements a).length := by omega
    have hneg : ¬ index < 0 := by omega
    simp [readAt, if_neg hneg, elements_put, hindex]
  elsewhere := by
    intro b j hplace
    apply readAt_congr (length_elements_put h a b index.toNat v)
    intro hj
    rw [elements_put]
    split
    · rename_i hba
      have hne : index.toNat ≠ j.toNat := by
        rcases hplace with hba' | hne
        · exact absurd hba hba'
        · omega
      rw [hba, List.getElem?_set_ne hne]
    · rfl

theorem inRange_of_checkWrite (hcheck : h.checkWrite a index v = .ok ()) :
    0 ≤ index ∧ index < (h.elements a).length := by
  unfold checkWrite at hcheck
  simp only at hcheck
  split at hcheck
  · cases hcheck
  · split at hcheck
    · assumption
    · cases hcheck

inductive WriteOutcome (h : Heap) (a : ArrayId) (index : Int) (v : Value) :
    Except ValueError Heap → Prop where
  | cyclic : h.Contains v a → WriteOutcome h a index v (.error .cyclicArray)
  | outOfRange : ¬ h.Contains v a → index < 0 ∨ (h.elements a).length ≤ index →
    WriteOutcome h a index v (.error (.indexOutOfRange index (h.elements a).length))
  | written {g : Heap} : ¬ h.Contains v a → 0 ≤ index → index < (h.elements a).length →
    Written h a index v g → WriteOutcome h a index v (.ok g)

theorem writeAt_of_contains (index : Int) (hcontains : h.Contains v a) :
    h.writeAt a index v = .error .cyclicArray := by
  unfold writeAt checkWrite
  rw [if_pos (reaches_iff_contains.mpr hcontains)]
  rfl

theorem writeAt_of_outOfRange (hcontains : ¬ h.Contains v a)
    (hout : index < 0 ∨ (h.elements a).length ≤ index) :
    h.writeAt a index v = .error (.indexOutOfRange index (h.elements a).length) := by
  have hrange : ¬ (0 ≤ index ∧ index < (h.elements a).length) := by omega
  unfold writeAt checkWrite
  rw [if_neg (reaches_iff_contains.not.mpr hcontains), if_neg hrange]
  rfl

theorem writeAt_of_inRange (hcontains : ¬ h.Contains v a) (hnonneg : 0 ≤ index)
    (hlt : index < (h.elements a).length) :
    h.writeAt a index v = .ok (h.put a index.toNat v) := by
  unfold writeAt checkWrite
  rw [if_neg (reaches_iff_contains.not.mpr hcontains), if_pos ⟨hnonneg, hlt⟩]
  rfl

/-- Being nested is decided before the bounds. -/
theorem writeOutcome_writeAt (h : Heap) (a : ArrayId) (index : Int) (v : Value) :
    WriteOutcome h a index v (h.writeAt a index v) := by
  by_cases hcontains : h.Contains v a
  · rw [writeAt_of_contains index hcontains]
    exact .cyclic hcontains
  · by_cases hrange : 0 ≤ index ∧ index < (h.elements a).length
    · obtain ⟨hnonneg, hlt⟩ := hrange
      rw [writeAt_of_inRange hcontains hnonneg hlt]
      exact .written hcontains hnonneg hlt (written_put h v hnonneg hlt)
    · have hout : index < 0 ∨ (h.elements a).length ≤ index := by omega
      rw [writeAt_of_outOfRange hcontains hout]
      exact .outOfRange hcontains hout

theorem writeAt_eq_iff {outcome : Except ValueError Heap} :
    h.writeAt a index v = outcome ↔ WriteOutcome h a index v outcome := by
  constructor
  · rintro rfl
    exact writeOutcome_writeAt h a index v
  · intro houtcome
    cases houtcome with
    | cyclic hcontains => exact writeAt_of_contains index hcontains
    | outOfRange hcontains hout => exact writeAt_of_outOfRange hcontains hout
    | written hcontains hnonneg hlt hwritten =>
      rw [writeAt_of_inRange hcontains hnonneg hlt]
      exact congrArg Except.ok ((written_put h v hnonneg hlt).unique hwritten)

/-- Among arrays without a cycle, the writes that would make one are those of an array that has the
target nested in it. -/
theorem acyclic_put_iff (hacyclic : h.Acyclic) (hnonneg : 0 ≤ index)
    (hlt : index < (h.elements a).length) :
    (h.put a index.toNat v).Acyclic ↔ ¬ h.Contains v a := by
  constructor
  · rintro hput ⟨b, rfl, hnested⟩
    have hindex : index.toNat < (h.elements a).length := by omega
    exact not_acyclic_put hindex hnested hput
  · intro hcontains
    apply hacyclic.put
    intro b hb hnested
    exact hcontains ⟨b, hb, hnested⟩

end Heap

/-- What a write comes to on any heap, however its arrays are shared: which of the three cases it is,
that a write that fails leaves the world as it was, and that on a heap without cycles no write is
refused but those that would make one. -/
theorem World.writes_refused_exactly_if_cyclic (w : World) (a : ArrayId) (index : Int) (v : Value) :
    (∀ outcome, w.heap.writeAt a index v = outcome ↔ w.heap.WriteOutcome a index v outcome) ∧
    (∀ reason, w.heap.writeAt a index v = .error reason →
      (Operation.setIndex a index v).perform w = w) ∧
    (∀ g, w.heap.writeAt a index v = .ok g →
      (Operation.setIndex a index v).perform w = { w with heap := g }) ∧
    (w.heap.Acyclic → 0 ≤ index → index < (w.heap.elements a).length →
      ∃ g, w.heap.Written a index v g ∧
        (w.heap.writeAt a index v = .error .cyclicArray ↔ ¬ g.Acyclic)) := by
  refine ⟨fun outcome => Heap.writeAt_eq_iff, ?_, ?_, ?_⟩
  · intro reason hfails
    simp only [Operation.perform, hfails, Operation.heapAfter]
  · intro g hwrites
    simp only [Operation.perform, hwrites, Operation.heapAfter]
  · intro hacyclic hnonneg hlt
    refine ⟨_, Heap.written_put w.heap v hnonneg hlt, ?_⟩
    rw [Heap.acyclic_put_iff hacyclic hnonneg hlt, not_not]
    constructor
    · intro hrefused
      cases Heap.writeAt_eq_iff.mp hrefused with
      | cyclic hcontains => exact hcontains
    · exact Heap.writeAt_of_contains index

/-- An array may be held in two places. A cycle is noticed before the index is looked at. -/
example :
    let h : Heap := ⟨#[[.integer 1], [.array ⟨0⟩, .integer 2]]⟩
    h.writeAt ⟨1⟩ 1 (.array ⟨0⟩) = .ok ⟨#[[.integer 1], [.array ⟨0⟩, .array ⟨0⟩]]⟩ ∧
      h.writeAt ⟨0⟩ 5 (.array ⟨1⟩) = .error .cyclicArray := by
  decide

end Scriptlet
