import Scriptlet.Proofs.Heap.Nesting
import Scriptlet.Proofs.World.Invariant

/-!
The footprint of a call: which arrays it can change, and which it can give out. The arrays that a
running script can lay hands on are those that were reachable from its arguments when it began and
those that were made since. This territory is closed under whatever a script does, however handles
spread on the way: an array in it only ever holds arrays in it, and all else stays as it was.
-/

namespace Scriptlet

namespace Heap

/-- An array is reachable from values when it is one of them or nested in one. -/
def InReach (h : Heap) (values : List Value) (a : ArrayId) : Prop :=
  ∃ b, Value.array b ∈ values ∧ Nested h a b

def elementsOf (h : Heap) (values : List Value) : List Value :=
  values.flatMap fun
    | .array a => h.elements a
    | _ => []

theorem InReach.child {h : Heap} {values : List Value} {a b : ArrayId}
    (ha : h.InReach values a) (hb : b ∈ h.children a) : h.InReach values b := by
  obtain ⟨c, hc, hnested⟩ := ha
  exact ⟨c, hc, (Nested.child hb).trans hnested⟩

theorem inReach_of_mem {h : Heap} {values : List Value} {a : ArrayId}
    (ha : Value.array a ∈ values) : h.InReach values a :=
  ⟨a, ha, .refl⟩

theorem mem_elementsOf {h : Heap} {values : List Value} {a : ArrayId} {v : Value}
    (ha : Value.array a ∈ values) (hv : v ∈ h.elements a) : v ∈ h.elementsOf values :=
  List.mem_flatMap.mpr ⟨.array a, ha, hv⟩

/-- An array that belongs to a script: reachable when it began, or made since. -/
def Owned (before : Heap) (roots : List Value) (now : Heap) (a : ArrayId) : Prop :=
  before.InReach roots a ∨ before.size ≤ a.index ∧ a.index < now.size

structure Territory (before : Heap) (roots : List Value) (now : Heap) : Prop where
  size_le : before.size ≤ now.size
  untouched : ∀ a, ¬ Owned before roots now a → now.elements a = before.elements a
  closed : ∀ a b, Owned before roots now a → b ∈ now.children a → Owned before roots now b

section Territory

variable {before now next : Heap} {roots : List Value} {a b : ArrayId}

theorem Owned.mono (ha : Owned before roots now a) (hsize : now.size ≤ next.size) :
    Owned before roots next a := by
  rcases ha with hreach | ⟨hold, hlt⟩
  · exact .inl hreach
  · exact .inr ⟨hold, Nat.lt_of_lt_of_le hlt hsize⟩

theorem territory_self (before : Heap) (roots : List Value) : Territory before roots before where
  size_le := Nat.le_refl _
  untouched _ _ := rfl
  closed := by
    intro a b ha hb
    rcases ha with hreach | ⟨hold, hlt⟩
    · exact .inl (hreach.child hb)
    · omega

theorem Territory.make {items : List Value} (h : Territory before roots now)
    (hitems : ∀ b, Value.array b ∈ items → Owned before roots now b) :
    Territory before roots (now.alloc items).2 where
  size_le := by
    have hsize := h.size_le
    simp only [size_alloc]
    omega
  untouched := by
    intro a ha
    have hnew : a.index ≠ now.size := by
      intro hindex
      have hold := h.size_le
      exact ha (.inr ⟨by omega, by simp [hindex]⟩)
    have hout : ¬ Owned before roots now a := fun hin => ha (hin.mono (by simp))
    rw [elements_alloc, if_neg hnew]
    exact h.untouched a hout
  closed := by
    intro a b ha hb
    have howned : Owned before roots now b := by
      rw [mem_children_iff, elements_alloc] at hb
      split at hb
      · exact hitems b hb
      · rename_i hnew
        refine h.closed a b ?_ (mem_children_iff.mpr hb)
        rcases ha with hreach | ⟨hold, hlt⟩
        · exact .inl hreach
        · rw [size_alloc] at hlt
          exact .inr ⟨hold, by omega⟩
    exact howned.mono (by simp)

theorem Territory.write {index : Nat} {v : Value} (h : Territory before roots now)
    (ha : Owned before roots now a) (hv : ∀ b, v = .array b → Owned before roots now b) :
    Territory before roots (now.put a index v) where
  size_le := by
    rw [size_put]
    exact h.size_le
  untouched := by
    intro b hb
    have hout : ¬ Owned before roots now b := fun hin => hb (hin.mono (by simp))
    have hother : b ≠ a := by
      rintro rfl
      exact hout ha
    rw [elements_put, if_neg hother]
    exact h.untouched b hout
  closed := by
    intro b c hb hc
    have hold : Owned before roots now b := by simpa [Owned] using hb
    have howned : Owned before roots now c := by
      rcases mem_children_put hc with hchild | ⟨-, hnew⟩
      · exact h.closed b c hold hchild
      · exact hv c hnew
    exact howned.mono (by simp)

/-- Territory as an invariant: what a variable may have is what belongs to the script. -/
def territory (before : Heap) (roots : List Value) : Heap.Invariant where
  Holds := Territory before roots
  Later h g := h.size ≤ g.size
  Held h v := ∀ a, v = .array a → Owned before roots h a
  later_refl _ := Nat.le_refl _
  later_trans := Nat.le_trans
  held_later hlater hv a ha := (hv a ha).mono hlater
  held_scalar := by
    rintro h v hscalar a rfl
    cases hscalar
  held_element := by
    rintro h a v holds ha hv b rfl
    exact holds.closed a b (ha a rfl) (mem_children_iff.mpr hv)
  make := by
    intro h items holds hitems
    refine ⟨holds.make fun b hb => hitems _ hb b rfl, by simp, ?_⟩
    intro a ha
    cases ha
    exact .inr ⟨holds.size_le, by simp [alloc, size]⟩
  write := by
    intro h a index v holds ha hv _
    exact ⟨holds.write (ha a rfl) hv, by simp⟩

/-- Nothing is nested in an array of the territory but arrays of the territory. -/
theorem Territory.nested (h : Territory before roots now) (ha : Owned before roots now a)
    (hnested : Nested now b a) : Owned before roots now b := by
  induction hnested with
  | refl => exact ha
  | step hchild _ ih => exact ih (h.closed _ _ ha hchild)

end Territory

/-- What is said of the effect of a call on the heap: it leaves alone all earlier arrays that are not
reachable from the roots, and nothing is reachable from its value but what is reachable from the
roots or was made by the call. -/
structure Footprint (before : Heap) (roots : List Value) (outcome : Except Halt Value)
    (after : Heap) : Prop where
  unchanged : ∀ a, a.index < before.size → ¬ before.InReach roots a →
    after.elements a = before.elements a
  given : ∀ v, outcome = .ok v → ∀ a, after.InReach [v] a →
    before.InReach roots a ∨ before.size ≤ a.index ∧ a.index < after.size

/-- Territory at the end of a call is its footprint. -/
theorem Territory.footprint {before after : Heap} {roots : List Value}
    {outcome : Except Halt Value} (h : Territory before roots after)
    (hgiven : ∀ v, outcome = .ok v → ∀ a, v = .array a → Owned before roots after a) :
    Footprint before roots outcome after where
  unchanged := by
    intro a ha hout
    apply h.untouched
    rintro (hreach | ⟨hold, -⟩)
    · exact hout hreach
    · omega
  given := by
    rintro v hv a ⟨b, hb, hnested⟩
    have hsame : v = .array b := (List.mem_singleton.mp hb).symm
    exact h.nested (hgiven v hv b hsame) hnested

/-- An array outside of the footprint stays as it is, and is not given out. -/
theorem Footprint.apart {before after : Heap} {roots : List Value} {outcome : Except Halt Value}
    (h : Footprint before roots outcome after) {a : ArrayId} (ha : a.index < before.size)
    (hout : ¬ before.InReach roots a) :
    after.elements a = before.elements a ∧ ∀ v, outcome = .ok v → ¬ after.InReach [v] a := by
  refine ⟨h.unchanged a ha hout, ?_⟩
  intro v hv hreach
  rcases h.given v hv a hreach with hin | ⟨hnew, -⟩
  · exact hout hin
  · omega

end Heap

theorem World.footprint_call (w : World) (f : BoundFunction) (args : List Value) :
    w.heap.Footprint args (w.call f args).1 (w.call f args).2.heap := by
  have hbegin := Heap.territory_self w.heap args
  have hargs : ∀ v ∈ args, (Heap.territory w.heap args).Held w.heap v := by
    rintro v hv a rfl
    exact .inl (Heap.inReach_of_mem hv)
  have hend := (World.path_call (I := Heap.territory w.heap args) (f := f) hbegin hargs).holds
  apply hend.footprint
  intro v hv
  exact World.held_call (I := Heap.territory w.heap args) hbegin hargs hv

/-- What is in an argument array belongs to the routine. The array itself does not, unless it is
nested in an argument: if it was written to, that was through such a nested handle. -/
theorem Routine.copyable_argument (w : World) {args : List Value} {v : Value} (hv : v ∈ args) :
    (Heap.territory w.heap (w.heap.elementsOf args)).Copyable w.heap v := by
  rintro a rfl g hholds _ x hx b rfl
  by_cases howned : Heap.Owned w.heap (w.heap.elementsOf args) g a
  · exact hholds.closed a b howned (Heap.mem_children_iff.mpr hx)
  · rw [hholds.untouched a howned] at hx
    exact .inl (Heap.inReach_of_mem (Heap.mem_elementsOf hv hx))

theorem Routine.footprint_eval (r : Routine) (w : World) (args : List Value) :
    w.heap.Footprint (w.heap.elementsOf args) (r.eval w args).1 (r.eval w args).2.heap := by
  have hbegin := Heap.territory_self w.heap (w.heap.elementsOf args)
  have hargs := fun v (hv : v ∈ args) => Routine.copyable_argument w hv
  have hend := (Routine.path_eval (r := r) hbegin hargs).holds
  apply hend.footprint
  intro v hv
  exact Routine.held_eval hbegin hargs hv

/-- Calls stay within what is reachable from their arguments, and routines within what is reachable
from the elements of theirs. So an argument array of a routine that is not nested in an argument is
neither changed nor given out. -/
theorem World.calls_stay_in_reach (w : World) (args : List Value) :
    (∀ f, w.heap.Footprint args (w.call f args).1 (w.call f args).2.heap) ∧
    (∀ r : Routine,
      w.heap.Footprint (w.heap.elementsOf args) (r.eval w args).1 (r.eval w args).2.heap) ∧
    (∀ (r : Routine) (a : ArrayId), Value.array a ∈ args → a.index < w.heap.size →
      ¬ w.heap.InReach (w.heap.elementsOf args) a →
        (r.eval w args).2.heap.elements a = w.heap.elements a ∧
          ∀ v, (r.eval w args).1 = .ok v → ¬ (r.eval w args).2.heap.InReach [v] a) := by
  refine ⟨fun f => World.footprint_call w f args, fun r => Routine.footprint_eval r w args, ?_⟩
  intro r a _ ha hout
  exact (Routine.footprint_eval r w args).apart ha hout

def nestedWorld : World where
  heap := ⟨#[[.integer 1], [.array ⟨0⟩]]⟩

theorem nestedWorld_outer_not_inReach :
    ¬ nestedWorld.heap.InReach (nestedWorld.heap.elementsOf [.array ⟨1⟩]) ⟨1⟩ := by
  rintro ⟨b, hb, hnested⟩
  have helements : nestedWorld.heap.elementsOf [.array ⟨1⟩] = [.array ⟨0⟩] := by rfl
  obtain rfl : b = ⟨0⟩ := by simpa [helements] using hb
  have hnot : nestedWorld.heap.reaches (.array ⟨0⟩) ⟨1⟩ ≠ true := by decide
  exact absurd (Heap.reaches_array_iff.mpr hnested) hnot

/-- The outer of the two arrays is neither changed nor given out by a routine that is given it. -/
theorem World.calls_stay_in_reach_nested :
    ∀ r : Routine, (r.eval nestedWorld [.array ⟨1⟩]).2.heap.elements ⟨1⟩ = [.array ⟨0⟩] ∧
      ∀ v, (r.eval nestedWorld [.array ⟨1⟩]).1 = .ok v →
        ¬ (r.eval nestedWorld [.array ⟨1⟩]).2.heap.InReach [v] ⟨1⟩ := by
  intro r
  have hgiven : Value.array ⟨1⟩ ∈ [Value.array ⟨1⟩] := by simp
  have hmade : (⟨1⟩ : ArrayId).index < nestedWorld.heap.size := by decide
  have hroutines := (World.calls_stay_in_reach nestedWorld [.array ⟨1⟩]).2.2
  exact hroutines r ⟨1⟩ hgiven hmade nestedWorld_outer_not_inReach

end Scriptlet
