import Mathlib.Data.List.Forall2
import Scriptlet.Heap.Basic
import Scriptlet.Proofs.Each
import Scriptlet.Proofs.Heap.Nesting

namespace Scriptlet

variable {h : Heap} {a : ArrayId} {t : Text} {v : Value} {reason : ValueError}

theorem Value.asText_eq_ok_iff : v.asText = .ok t ↔ v = .text t := by
  cases v <;> simp [asText]

theorem Value.asText_eq_error_iff :
    v.asText = .error reason ↔ (∀ t, v ≠ .text t) ∧ reason = .typeMismatch [.text] v.kind := by
  cases v <;> simp [asText, kind, eq_comm]

namespace Sequence

@[simp] theorem length_drop (s : Sequence) (n : Nat) : (s.drop n).length = s.length - n := by
  cases s <;> exact List.length_drop

theorem drop_drop (s : Sequence) (m n : Nat) : (s.drop m).drop n = s.drop (m + n) := by
  cases s <;> simp [drop]

theorem reverse_reverse (s : Sequence) : s.reverse.reverse = s := by
  cases s <;> simp [reverse]

theorem suffix_of_le (s : Sequence) {start : Nat} (hle : start ≤ s.length) :
    s.suffix start = .ok (s.drop start) := by
  have hrange : 0 ≤ (start : Int) ∧ (start : Int) ≤ s.length := by omega
  rw [suffix, if_pos hrange, Int.toNat_natCast]

theorem suffix_eq_error_iff {s : Sequence} {start : Int} :
    s.suffix start = .error reason ↔
      (start < 0 ∨ s.length < start) ∧ reason = .indexOutOfRange start s.length := by
  unfold suffix
  split
  · have hin : ¬ (start < 0 ∨ s.length < start) := by omega
    simp [hin]
  · have hout : start < 0 ∨ s.length < start := by omega
    simp [hout, eq_comm]

end Sequence

namespace Heap

theorem sequence_array (h : Heap) (a : ArrayId) :
    h.sequence (.array a) = .ok (.elements (h.elements a)) :=
  rfl

theorem sequence_eq_characters_iff : h.sequence v = .ok (.characters t) ↔ v = .text t := by
  cases v <;> simp [sequence]

theorem sequence_eq_elements_iff {items : List Value} :
    h.sequence v = .ok (.elements items) ↔ ∃ a, v = .array a ∧ h.elements a = items := by
  cases v <;> simp [sequence]

theorem length_text (h : Heap) (t : Text) : h.length (.text t) = .ok t.length :=
  rfl

theorem length_array (h : Heap) (a : ArrayId) : h.length (.array a) = .ok (h.elements a).length :=
  rfl

theorem length_eq_ok_iff {n : Nat} :
    h.length v = .ok n ↔ ∃ s, h.sequence v = .ok s ∧ s.length = n := by
  cases hs : h.sequence v <;> simp [length, hs, bind, Except.bind, pure, Except.pure]

theorem reverse_of_sequence {s : Sequence} (hs : h.sequence v = .ok s) :
    h.reverse v = .ok (h.hold s.reverse) := by
  simp [reverse, hs, bind, Except.bind, pure, Except.pure]

theorem slice_of_sequence {s : Sequence} (hs : h.sequence v = .ok s) (start : Int) :
    h.slice v start = (s.suffix start).map h.hold := by
  unfold slice
  rw [hs]
  cases hsuffix : s.suffix start <;>
    simp [bind, Except.bind, hsuffix, Except.map, pure, Except.pure]

theorem slice_of_le {s : Sequence} (hs : h.sequence v = .ok s) {start : Nat}
    (hle : start ≤ s.length) : h.slice v start = .ok (h.hold (s.drop start)) := by
  rw [slice_of_sequence hs, s.suffix_of_le hle]
  rfl

/-! ### A sequence as a value -/

theorem sequence_hold (h : Heap) (s : Sequence) : (h.hold s).2.sequence (h.hold s).1 = .ok s := by
  cases s with
  | characters t => rfl
  | elements items => exact congrArg (Except.ok ∘ Sequence.elements) (elements_alloc_self h items)

theorem extends_hold (h : Heap) (s : Sequence) : h.Extends (h.hold s).2 := by
  cases s with
  | characters t => exact h.extends_refl
  | elements items => exact h.extends_alloc items

theorem knows_hold (h : Heap) (s : Sequence) : (h.hold s).2.Knows (h.hold s).1 := by
  cases s with
  | characters t =>
    intro a ha
    cases ha
  | elements items => exact knows_alloc h items

/-- What a value has as its members stays the same as long as nothing is written. -/
theorem Extends.sequence_eq {g : Heap} (hext : h.Extends g) (hv : h.Knows v) :
    g.sequence v = h.sequence v := by
  cases v with
  | array a => exact congrArg (Except.ok ∘ Sequence.elements) (hext.elements_eq hv)
  | _ => rfl

/-! ### When an operation fails -/

/-- A slice fails for a value that has no length, and otherwise just if it begins before the value does
or beyond its end. -/
theorem slice_eq_error_iff {start : Int} :
    h.slice v start = .error reason ↔ h.length v = .error reason ∨
      ∃ n : Nat, h.length v = .ok n ∧ (start < 0 ∨ n < start) ∧
        reason = .indexOutOfRange start n := by
  cases hs : h.sequence v with
  | error e => simp [slice, length, hs, bind, Except.bind]
  | ok s =>
    have hlength : h.length v = .ok s.length := by
      simp [length, hs, bind, Except.bind, pure, Except.pure]
    have hslice : h.slice v start = .error reason ↔ s.suffix start = .error reason := by
      rw [slice_of_sequence hs]
      cases s.suffix start <;> simp [Except.map]
    rw [hslice, Sequence.suffix_eq_error_iff, hlength]
    simp

/-- The texts of an array are joined if it holds nothing else. -/
theorem join_eq_ok_iff :
    h.join a = .ok t ↔ ∃ ts : List Text, h.elements a = ts.map .text ∧ t = ts.flatten := by
  have heach : ∀ ts : List Text,
      (h.elements a).mapM Value.asText = .ok ts ↔ h.elements a = ts.map .text := by
    intro ts
    simp only [mapM_eq_ok_iff, Value.asText_eq_ok_iff]
    rw [← List.forall₂_map_right_iff, List.forall₂_eq_eq_eq]
  simp only [← heach]
  unfold join
  cases (h.elements a).mapM Value.asText with
  | error e => simp [bind, Except.bind]
  | ok ts => simp [bind, Except.bind, pure, Except.pure, eq_comm]

/-- A join fails if there is something else than texts to join. -/
theorem exists_join_eq_error_iff :
    (∃ reason, h.join a = .error reason) ↔ ∃ v ∈ h.elements a, ∀ t, v ≠ .text t := by
  cases hjoin : h.join a with
  | ok t =>
    obtain ⟨ts, helements, -⟩ := join_eq_ok_iff.mp hjoin
    simp [helements]
  | error reason =>
    have hmap : (h.elements a).mapM Value.asText = .error reason := by
      unfold join at hjoin
      cases hmap : (h.elements a).mapM Value.asText with
      | ok ts => simp [hmap, bind, Except.bind, pure, Except.pure] at hjoin
      | error e => simpa [hmap, bind, Except.bind] using hjoin
    obtain ⟨before, v, after, _, helements, -, hv⟩ := mapM_eq_error_iff.mp hmap
    have hmem : v ∈ h.elements a := by simp [helements]
    exact ⟨fun _ => ⟨v, hmem, (Value.asText_eq_error_iff.mp hv).1⟩, fun _ => ⟨reason, rfl⟩⟩

end Heap

end Scriptlet
