import Scriptlet.Value

/-!
The heap of arrays. An array is made with its elements and keeps its length; a write replaces one
element. A place where no array was made reads as an empty one, so that reading is total. What is
taken from an array is a new array; the elements themselves stay shared.
-/

namespace Scriptlet

structure Heap where
  cells : Array (List Value) := #[]
  deriving DecidableEq, Repr

namespace Heap

def size (h : Heap) : Nat :=
  h.cells.size

def elements (h : Heap) (a : ArrayId) : List Value :=
  h.cells.getD a.index []

def alloc (h : Heap) (items : List Value) : ArrayId × Heap :=
  (⟨h.size⟩, ⟨h.cells.push items⟩)

def replace (h : Heap) (a : ArrayId) (items : List Value) : Heap :=
  ⟨h.cells.setIfInBounds a.index items⟩

@[simp] theorem size_alloc (h : Heap) (items : List Value) : (h.alloc items).2.size = h.size + 1 := by
  simp [alloc, size]

@[simp] theorem size_replace (h : Heap) (a : ArrayId) (items : List Value) :
    (h.replace a items).size = h.size := by
  simp [replace, size]

theorem elements_alloc (h : Heap) (items : List Value) (a : ArrayId) :
    (h.alloc items).2.elements a = if a.index = h.size then items else h.elements a := by
  simp only [alloc, elements, size, Array.getD_eq_getD_getElem?, Array.getElem?_push]
  by_cases ha : a.index = h.cells.size <;> simp [ha]

theorem elements_replace (h : Heap) (a b : ArrayId) (items : List Value) :
    (h.replace a items).elements b = if b = a ∧ a.index < h.size then items else h.elements b := by
  simp only [replace, elements, size, Array.getD_eq_getD_getElem?, Array.getElem?_setIfInBounds]
  obtain ⟨a⟩ := a
  obtain ⟨b⟩ := b
  simp only [ArrayId.mk.injEq]
  by_cases hab : a = b
  · subst hab
    by_cases hlt : a < h.cells.size <;> simp [hlt]
  · simp [hab, Ne.symm hab]

end Heap

/-! ### Texts and arrays as sequences -/

/-- The characters of a text or the elements of an array, apart from any heap. -/
inductive Sequence where
  | characters (t : Text)
  | elements (items : List Value)
  deriving DecidableEq, Repr

namespace Sequence

def length : Sequence → Nat
  | .characters t => t.length
  | .elements items => items.length

def reverse : Sequence → Sequence
  | .characters t => .characters t.reverse
  | .elements items => .elements items.reverse

def drop (n : Nat) : Sequence → Sequence
  | .characters t => .characters (t.drop n)
  | .elements items => .elements (items.drop n)

/-- What is left after the first `start` members. At the very end nothing is left; before the
beginning or beyond the end is an error. -/
def suffix (s : Sequence) (start : Int) : Except ValueError Sequence :=
  if 0 ≤ start ∧ start ≤ s.length then .ok (s.drop start.toNat)
  else .error (.indexOutOfRange start s.length)

def singles (t : Text) : Sequence :=
  .elements (t.map fun c => .text [c])

end Sequence

namespace Heap

/-- The sequence that a value is. -/
def sequence (h : Heap) (v : Value) : Except ValueError Sequence :=
  match v with
  | .text t => .ok (.characters t)
  | .array a => .ok (.elements (h.elements a))
  | v => .error (.typeMismatch [.text, .array] v.kind)

def allocValue (h : Heap) (items : List Value) : Value × Heap :=
  let (a, h) := h.alloc items
  (.array a, h)

/-- A sequence as a value: a text, or a new array. -/
def hold (h : Heap) : Sequence → Value × Heap
  | .characters t => (.text t, h)
  | .elements items => h.allocValue items

def length (h : Heap) (v : Value) : Except ValueError Nat :=
  return (← h.sequence v).length

def reverse (h : Heap) (v : Value) : Except ValueError (Value × Heap) :=
  return h.hold (← h.sequence v).reverse

def slice (h : Heap) (v : Value) (start : Int) : Except ValueError (Value × Heap) :=
  return h.hold (← (← h.sequence v).suffix start)

def join (h : Heap) (a : ArrayId) : Except ValueError Text :=
  return (← (h.elements a).mapM Value.asText).flatten

/-- An array of texts of one character each. -/
def characters (h : Heap) (t : Text) : Value × Heap :=
  h.hold (.singles t)

def copy (h : Heap) (a : ArrayId) : ArrayId × Heap :=
  h.alloc (h.elements a)

/-- Values with every array among them copied; arrays nested in those stay shared. -/
def copyArrays (h : Heap) : List Value → List Value × Heap
  | [] => ([], h)
  | .array a :: rest =>
    let (b, h) := h.copy a
    let (copies, h) := h.copyArrays rest
    (.array b :: copies, h)
  | v :: rest =>
    let (copies, h) := h.copyArrays rest
    (v :: copies, h)

end Heap

end Scriptlet
