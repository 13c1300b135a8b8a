import Scriptlet.Proofs.Heap.Equality

/-!
Texts and arrays of single characters. An array spells a text when it holds its characters in order,
each as a text of its own. Splitting makes such an array and joining reads it back; and since length,
reverse and slice keep to the same bounds on both sides, what is done to the array spells what is done
to the text (`characters_isomorphism`).
-/

namespace Scriptlet

variable {h g : Heap} {a : ArrayId} {t : Text} {v w : Value} {s : Sequence}

namespace Sequence

def Known (h : Heap) : Sequence → Prop
  | .characters _ => True
  | .elements items => ∀ v ∈ items, h.Knows v

theorem Known.drop (hs : s.Known h) (n : Nat) : (s.drop n).Known h := by
  cases s with
  | characters t => trivial
  | elements items => exact fun v hv => hs v (List.mem_of_mem_drop hv)

theorem Known.reverse (hs : s.Known h) : s.reverse.Known h := by
  cases s with
  | characters t => trivial
  | elements items => exact fun v hv => hs v (List.mem_reverse.mp hv)

theorem Known.mono (hs : s.Known h) (hext : h.Extends g) : s.Known g := by
  cases s with
  | characters t => trivial
  | elements items => exact fun v hv => (hs v hv).mono hext.1

end Sequence

namespace Heap

/-- That an array holds the characters of a text, each as a text of its own. -/
def Spells (h : Heap) (a : ArrayId) (t : Text) : Prop :=
  h.elements a = t.map fun c => .text [c]

theorem Spells.join (hspells : h.Spells a t) : h.join a = .ok t := by
  refine join_eq_ok_iff.mpr ⟨t.map fun c => [c], ?_, ?_⟩
  · rw [hspells, List.map_map]
    rfl
  · exact (List.flatMap_singleton' t).symm

theorem Spells.length (hspells : h.Spells a t) : (h.elements a).length = t.length := by
  rw [hspells, List.length_map]

/-- An array that holds nothing but texts of one character each spells some text. -/
theorem exists_spells (hsingle : ∀ v ∈ h.elements a, ∃ c, v = .text [c]) : ∃ t, h.Spells a t := by
  unfold Spells
  generalize h.elements a = vs at hsingle
  induction vs with
  | nil => exact ⟨[], rfl⟩
  | cons v vs ih =>
    obtain ⟨⟨c, rfl⟩, hrest⟩ := List.forall_mem_cons.mp hsingle
    obtain ⟨t, rfl⟩ := ih hrest
    exact ⟨c :: t, rfl⟩

theorem spells_alloc (h : Heap) (t : Text) :
    (h.alloc (t.map fun c => .text [c])).2.Spells (h.alloc (t.map fun c => .text [c])).1 t :=
  elements_alloc_self h _

theorem Spells.reverse (hspells : h.Spells a t) :
    ∃ b g, h.reverse (.array a) = .ok (.array b, g) ∧ g.join b = .ok t.reverse := by
  rw [reverse_of_sequence (h.sequence_array a), hspells, Sequence.reverse, ← List.map_reverse]
  exact ⟨_, _, rfl, (spells_alloc h t.reverse).join⟩

/-- That one operation made an array, which joins to a text, and another that text. -/
def BothSpell (s : Text) (made said : Value × Heap) : Prop :=
  (∃ b, made.1 = .array b ∧ made.2.join b = .ok s) ∧ said.1 = .text s

theorem Spells.alike_slice (hspells : h.Spells a t) (start : Int) :
    Alike (BothSpell (t.drop start.toNat)) (h.slice (.array a) start) (h.slice (.text t) start) := by
  by_cases hrange : 0 ≤ start ∧ start ≤ t.length
  · obtain ⟨n, rfl⟩ := Int.eq_ofNat_of_zero_le hrange.1
    have hle : n ≤ t.length := by omega
    have hle' : n ≤ (h.elements a).length := hspells.length ▸ hle
    rw [slice_of_le (h.sequence_array a) hle', slice_of_le (s := .characters t) rfl hle, hspells,
      Sequence.drop, Sequence.drop, ← List.map_drop]
    exact .ok ⟨⟨_, rfl, (spells_alloc h (t.drop n)).join⟩, rfl⟩
  · have hout : start < 0 ∨ (t.length : Int) < start := by omega
    have hlength : h.length (.array a) = .ok t.length := congrArg Except.ok hspells.length
    rw [slice_eq_error_iff.mpr (.inr ⟨_, hlength, hout, rfl⟩),
      slice_eq_error_iff.mpr (.inr ⟨_, length_text h t, hout, rfl⟩)]
    exact .error _

/-! ### Laws of slice and reverse -/

theorem Closed.known (hclosed : h.Closed) (hs : h.sequence v = .ok s) : s.Known h := by
  cases s with
  | characters t => trivial
  | elements items =>
    obtain ⟨a, -, rfl⟩ := sequence_eq_elements_iff.mp hs
    exact hclosed a

theorem Orderly.hold (hh : h.Orderly) (hs : s.Known h) : (h.hold s).2.Orderly := by
  cases s with
  | characters t => exact hh
  | elements items => exact hh.alloc hs

/-- That two values of a later heap have the very same members, so that they are equal if no array is
inside itself. -/
structure Coincide (h g : Heap) (v w : Value) : Prop where
  members : ∃ s, g.sequence v = .ok s ∧ g.sequence w = .ok s
  equals : h.Orderly → g.Equals v w

/-- Two slices, one after the other, are one slice. -/
theorem slice_slice {k m n : Nat} (hv : h.Knows v) (hlength : h.length v = .ok k)
    (hle : m + n ≤ k) :
    ∃ u g w f x e, h.slice v m = .ok (u, g) ∧ g.slice u n = .ok (w, f) ∧
      f.slice v (m + n : Nat) = .ok (x, e) ∧ h.Coincide e w x := by
  obtain ⟨s, hs, rfl⟩ := length_eq_ok_iff.mp hlength
  let first := h.hold (s.drop m)
  let second := first.2.hold ((s.drop m).drop n)
  let whole := second.2.hold (s.drop (m + n))
  have hfirst : h.Extends first.2 := extends_hold h _
  have hsecond : h.Extends second.2 := hfirst.trans (extends_hold first.2 _)
  have hthird : second.2.Extends whole.2 := extends_hold second.2 _
  have hrest : n ≤ (s.drop m).length := by
    rw [Sequence.length_drop]
    omega
  have hkept : second.2.sequence v = .ok s := (hsecond.sequence_eq hv).trans hs
  have hw : whole.2.sequence second.1 = .ok (s.drop (m + n)) := by
    rw [hthird.sequence_eq (knows_hold first.2 _), sequence_hold, Sequence.drop_drop]
  have hx : whole.2.sequence whole.1 = .ok (s.drop (m + n)) := sequence_hold second.2 _
  refine ⟨_, _, second.1, _, whole.1, whole.2, slice_of_le hs (by omega),
    slice_of_le (sequence_hold h _) hrest, slice_of_le hkept hle, ⟨_, hw, hx⟩, ?_⟩
  intro hh
  have hknown : s.Known h := hh.closed.known hs
  have hwhole : whole.2.Orderly := by
    have hpart : first.2.Orderly := hh.hold (hknown.drop m)
    have hpart' : second.2.Orderly := hpart.hold (((hknown.drop m).mono hfirst).drop n)
    exact hpart'.hold ((hknown.mono hsecond).drop (m + n))
  exact hwhole.equals_of_sequence_eq ((knows_hold first.2 _).mono hthird.1) (knows_hold second.2 _)
    hw hx

theorem reverse_reverse {k : Nat} (hv : h.Knows v) (hlength : h.length v = .ok k) :
    ∃ u g w f, h.reverse v = .ok (u, g) ∧ g.reverse u = .ok (w, f) ∧ h.Coincide f w v := by
  obtain ⟨s, hs, -⟩ := length_eq_ok_iff.mp hlength
  let turned := h.hold s.reverse
  let back := turned.2.hold s.reverse.reverse
  have hturned : h.Extends turned.2 := extends_hold h _
  have hback : h.Extends back.2 := hturned.trans (extends_hold turned.2 _)
  have hw : back.2.sequence back.1 = .ok s := by
    rw [sequence_hold, Sequence.reverse_reverse]
  have hkept : back.2.sequence v = .ok s := (hback.sequence_eq hv).trans hs
  refine ⟨_, _, back.1, back.2, reverse_of_sequence hs, reverse_of_sequence (sequence_hold h _),
    ⟨s, hw, hkept⟩, ?_⟩
  intro hh
  have hknown : s.reverse.Known h := (hh.closed.known hs).reverse
  have hafter : back.2.Orderly := (hh.hold hknown).hold (hknown.mono hturned).reverse
  exact hafter.equals_of_sequence_eq (knows_hold turned.2 _) (hv.mono hback.1) hw hkept

/-- Arrays of the same texts are equal on any heap. -/
theorem equals_of_elements_texts {b : ArrayId} {ts : List Text} (ha : h.elements a = ts.map .text)
    (hb : h.elements b = ts.map .text) : h.Equals (.array a) (.array b) := by
  have heach : allSame? (h.equalWithin? h.size) (ts.map .text) (ts.map .text) = some true := by
    clear ha hb
    induction ts with
    | nil => rfl
    | cons t ts ih => simp [allSame?, equalWithin?, ih]
  rw [Equals, equal?, equalWithin?, ha, hb, if_pos rfl, heach]

theorem characters_join (ha : h.Knows (.array a))
    (hsingle : ∀ v ∈ h.elements a, ∃ c, v = .text [c]) :
    ∃ t, h.join a = .ok t ∧ (h.characters t).2.Equals (h.characters t).1 (.array a) := by
  obtain ⟨t, hspells⟩ := exists_spells hsingle
  have htexts : (t.map fun c => .text [c]) = (t.map fun c => [c]).map Value.text := by simp
  have hmade := (spells_alloc h t).trans htexts
  have hext : h.Extends (h.characters t).2 := h.extends_alloc _
  have hkept := ((hext.elements_eq ha).trans hspells).trans htexts
  exact ⟨t, hspells.join, equals_of_elements_texts hmade hkept⟩

/-- Splitting a text into its characters loses nothing: joining gives the text back, and the length, the
reverse and every slice of the array are those of the text, down to the error. A slice fails exactly
for a start before the beginning or beyond the end; two slices within these bounds are one, and
reversing twice changes nothing, for texts and for arrays of any values. An array of single characters
is the one that its join is split into, and a join fails exactly for an array that holds something else
than texts. -/
theorem characters_isomorphism (h : Heap) :
    (∀ t, ∃ a g, h.characters t = (.array a, g) ∧ g.join a = .ok t ∧
      g.length (.array a) = g.length (.text t) ∧
      (∃ b f, g.reverse (.array a) = .ok (.array b, f) ∧ f.join b = .ok t.reverse) ∧
      g.reverse (.text t) = .ok (.text t.reverse, g) ∧
      ∀ n : Int, Alike (BothSpell (t.drop n.toNat)) (g.slice (.array a) n) (g.slice (.text t) n)) ∧
    (∀ v k, h.length v = .ok k → ∀ (n : Int) reason,
      h.slice v n = .error reason ↔ (n < 0 ∨ k < n) ∧ reason = .indexOutOfRange n k) ∧
    (∀ v k, h.Knows v → h.length v = .ok k → ∀ m n : Int, 0 ≤ m → m ≤ k → 0 ≤ n → n ≤ k - m →
      ∃ u g w f x e, h.slice v m = .ok (u, g) ∧ g.slice u n = .ok (w, f) ∧
        f.slice v (m + n) = .ok (x, e) ∧ h.Coincide e w x) ∧
    (∀ v k, h.Knows v → h.length v = .ok k →
      ∃ u g w f, h.reverse v = .ok (u, g) ∧ g.reverse u = .ok (w, f) ∧ h.Coincide f w v) ∧
    (∀ a, h.Knows (.array a) → (∀ v ∈ h.elements a, ∃ c, v = .text [c]) →
      ∃ t, h.join a = .ok t ∧ (h.characters t).2.Equals (h.characters t).1 (.array a)) ∧
    ∀ a, (∃ reason, h.join a = .error reason) ↔ ∃ v ∈ h.elements a, ∀ t, v ≠ .text t := by
  refine ⟨?_, ?_, ?_, ?_, ?_, ?_⟩
  · intro t
    have hspells := spells_alloc h t
    exact ⟨_, _, rfl, hspells.join, congrArg Except.ok hspells.length, hspells.reverse,
      rfl, hspells.alike_slice⟩
  · intro v k hlength n reason
    simp [slice_eq_error_iff, hlength]
  · intro v k hv hlength m n hm hmk hn hnk
    obtain ⟨m, rfl⟩ := Int.eq_ofNat_of_zero_le hm
    obtain ⟨n, rfl⟩ := Int.eq_ofNat_of_zero_le hn
    exact slice_slice hv hlength (by omega)
  · exact fun v k hv hlength => reverse_reverse hv hlength
  · exact fun a ha hsingle => characters_join ha hsingle
  · exact fun a => exists_join_eq_error_iff

/-- Three characters of one, two and four bytes: slices and joins count characters. -/
theorem characters_isomorphism_sample :
    let h := (({} : Heap).characters "aä𝄞".toList).2
    h.length (.array ⟨0⟩) = .ok 3 ∧
      (∃ u g w f x e, h.slice (.array ⟨0⟩) 1 = .ok (u, g) ∧ g.slice u 2 = .ok (w, f) ∧
        f.slice (.array ⟨0⟩) (1 + 2) = .ok (x, e) ∧ e.Equals w x) ∧
      ∃ t, h.join ⟨0⟩ = .ok t ∧ (h.characters t).2.Equals (h.characters t).1 (.array ⟨0⟩) := by
  intro h
  obtain ⟨-, -, hslices, -, hjoin, -⟩ := characters_isomorphism h
  have hknows : h.Knows (.array ⟨0⟩) := by decide
  have hlength : h.length (.array ⟨0⟩) = .ok 3 := by decide
  have hsingle : ∀ v ∈ h.elements ⟨0⟩, ∃ c, v = .text [c] := by
    have helements : h.elements ⟨0⟩ = "aä𝄞".toList.map fun c => .text [c] := by decide
    simp [helements]
  have hh : h.Orderly := Orderly.empty.alloc (by decide)
  obtain ⟨u, g, w, f, x, e, hu, hw, hx, hwx⟩ :=
    hslices _ 3 hknows hlength 1 2 (by decide) (by decide) (by decide) (by decide)
  exact ⟨hlength, ⟨u, g, w, f, x, e, hu, hw, hx, hwx.equals hh⟩, hjoin ⟨0⟩ hknows hsingle⟩

end Heap

end Scriptlet
