import Scriptlet.Heap.Basic

/-!
Reading and writing one element of an array. A write is refused when it would put an array inside
itself, and that comes before the bounds are looked at.

The search for that keeps a mark for every array that it has not seen; an array that it looks into
loses its mark, so the search ends on every heap, shared or cyclic arrays included. Most arrays hold
few others, so a short look that needs no marks comes first. Both find the target exactly where it is
nested (`Heap.reaches_array_iff`).
-/

namespace Scriptlet

namespace Heap

def children (h : Heap) (a : ArrayId) : List ArrayId :=
  (h.elements a).filterMap Value.array?

/-- An array is nested in another when it is the other one, or is nested in one of its elements. -/
inductive Nested (h : Heap) (target : ArrayId) : ArrayId → Prop where
  | refl : Nested h target target
  | step {a b : ArrayId} : b ∈ h.children a → Nested h target b → Nested h target a

/-- Whether the target is a pending array or nested in one, if that shows within so many steps. -/
def glance? (h : Heap) (target : ArrayId) : (steps : Nat) → (pending : List ArrayId) → Option Bool
  | _, [] => some false
  | 0, _ :: _ => none
  | steps + 1, a :: rest =>
    if a = target then some true else glance? h target steps (h.children a ++ rest)

theorem count_unmark_lt {marks : Array Bool} {i : Nat} (h : marks.getD i false = true) :
    (marks.setIfInBounds i false).count true < marks.count true := by
  by_cases bound : i < marks.size
  · have marked : marks[i] = true := by simpa [Array.getD, bound] using h
    have : 0 < marks.count true := Array.count_pos_iff.2 (marked ▸ Array.getElem_mem bound)
    rw [Array.setIfInBounds, dif_pos bound, Array.count_set bound, marked, if_pos (by decide),
      if_neg (by decide)]
    omega
  · simp [Array.getD, bound] at h

/-- Whether the target is a pending array, or nested in one by way of arrays that are marked as
unseen. -/
def search (h : Heap) (target : ArrayId) (unseen : Array Bool) (pending : List ArrayId) : Bool :=
  match pending with
  | [] => false
  | a :: rest =>
    if a = target then true
    else if _marked : unseen.getD a.index false = true then
      search h target (unseen.setIfInBounds a.index false) (h.children a ++ rest)
    else search h target unseen rest
termination_by (unseen.count true, pending.length)
decreasing_by
  · exact Prod.Lex.left _ _ (count_unmark_lt _marked)
  · exact Prod.Lex.right _ (Nat.lt_succ_self _)

/-- How far the search looks before it makes marks. -/
def glanceSteps : Nat :=
  16

def reaches (h : Heap) (v : Value) (target : ArrayId) : Bool :=
  match v with
  | .array a =>
    match h.glance? target glanceSteps [a] with
    | some found => found
    | none => h.search target (Array.replicate h.size true) [a]
  | _ => false

/-- No array is nested in one of its own elements. -/
def Acyclic (h : Heap) : Prop :=
  ∀ a b, b ∈ h.children a → ¬ Nested h a b

theorem nested_iff {h : Heap} {target a : ArrayId} :
    Nested h target a ↔ a = target ∨ ∃ b ∈ h.children a, Nested h target b := by
  constructor
  · intro nested
    cases nested with
    | refl => exact .inl rfl
    | step hb nested => exact .inr ⟨_, hb, nested⟩
  · rintro (rfl | ⟨b, hb, nested⟩)
    · exact .refl
    · exact .step hb nested

/-- Looking into a pending array that is not the target puts what it holds in its place. -/
theorem exists_nested_expand {h : Heap} {target a : ArrayId} {rest : List ArrayId}
    (ha : a ≠ target) :
    (∃ x ∈ h.children a ++ rest, Nested h target x) ↔ ∃ x ∈ a :: rest, Nested h target x := by
  simp [nested_iff (a := a), ha, or_and_right, exists_or]

theorem glance?_eq_some {h : Heap} {target : ArrayId} {steps : Nat} {pending : List ArrayId}
    {found : Bool} (hglance : h.glance? target steps pending = some found) :
    found = true ↔ ∃ a ∈ pending, Nested h target a := by
  induction steps generalizing pending with
  | zero =>
    cases pending with
    | nil => simp_all [glance?]
    | cons a rest => simp [glance?] at hglance
  | succ steps ih =>
    cases pending with
    | nil => simp_all [glance?]
    | cons a rest =>
      rw [glance?] at hglance
      split at hglance
      · rename_i ha
        cases hglance
        exact ⟨fun _ => ⟨a, List.mem_cons_self, ha ▸ .refl⟩, fun _ => rfl⟩
      · rename_i ha
        rw [ih hglance, exists_nested_expand ha]

theorem exists_nested_of_search {h : Heap} {target : ArrayId} {unseen : Array Bool}
    {pending : List ArrayId} (found : h.search target unseen pending = true) :
    ∃ a ∈ pending, Nested h target a := by
  fun_induction search h target unseen pending with
  | case1 => cases found
  | case2 unseen rest => exact ⟨target, by simp, .refl⟩
  | case3 unseen a rest ha _ ih => exact (exists_nested_expand ha).1 (ih found)
  | case4 unseen a rest ha _ ih =>
    obtain ⟨x, hx, nested⟩ := ih found
    exact ⟨x, List.mem_cons_of_mem _ hx, nested⟩

/-- An array that a search still has to look into, or has looked into in vain. -/
def Settled (target : ArrayId) (unseen : Array Bool) (pending : List ArrayId) (a : ArrayId) : Prop :=
  a ∈ pending ∨ (a ≠ target ∧ unseen.getD a.index false = false)

theorem getD_unmark {marks : Array Bool} {i j : Nat} :
    (marks.setIfInBounds i false).getD j false = if j = i then false else marks.getD j false := by
  simp only [Array.getD_eq_getD_getElem?, Array.getElem?_setIfInBounds]
  by_cases hj : j = i
  · by_cases hlt : i < marks.size <;> simp [hj, hlt]
  · simp [hj, Ne.symm hj]

/-- A search that finds nothing has looked everywhere, provided that what it had seen before held
nothing but what was settled. -/
theorem not_nested_of_search {h : Heap} {target : ArrayId} {unseen : Array Bool}
    {pending : List ArrayId} (found : h.search target unseen pending = false)
    (closed : ∀ x, unseen.getD x.index false = false → ∀ c ∈ h.children x,
      Settled target unseen pending c) {a : ArrayId} (ha : Settled target unseen pending a) :
    ¬ Nested h target a := by
  fun_induction search h target unseen pending generalizing a with
  | case1 unseen =>
    simp only [Settled, List.not_mem_nil, false_or] at closed ha
    intro nested
    induction nested with
    | refl => exact ha.1 rfl
    | step hb _ ih => exact ih (closed _ ha.2 _ hb)
  | case2 unseen rest => cases found
  | case3 unseen b rest hb _ ih =>
    have step : ∀ {c}, Settled target unseen (b :: rest) c →
        Settled target (unseen.setIfInBounds b.index false) (h.children b ++ rest) c := by
      intro c hc
      simp only [Settled, getD_unmark, List.mem_append] at hc ⊢
      grind
    refine ih found (fun x hx c hc => ?_) (step ha)
    rw [getD_unmark] at hx
    split at hx
    · rename_i hindex
      obtain ⟨x⟩ := x
      obtain ⟨b⟩ := b
      cases hindex
      exact .inl (List.mem_append_left _ hc)
    · exact step (closed x hx c hc)
  | case4 unseen b rest hb hmark ih =>
    have step : ∀ {c}, Settled target unseen (b :: rest) c → Settled target unseen rest c := by
      intro c hc
      grind [Settled]
    exact ih found (fun x hx c hc => step (closed x hx c hc)) (step ha)

/-- The search finds the target exactly where it is nested. -/
theorem reaches_array_iff {h : Heap} {a target : ArrayId} :
    h.reaches (.array a) target = true ↔ Nested h target a := by
  simp only [reaches]
  split
  · rename_i found hglance
    simpa using glance?_eq_some hglance
  · constructor
    · intro found
      simpa using exists_nested_of_search found
    · intro nested
      rw [← Bool.not_eq_false]
      intro found
      refine not_nested_of_search found (fun x hx c hc => ?_) (.inl (List.mem_singleton_self a)) nested
      have outside : ¬ x.index < h.size := by
        intro inside
        simp [Array.getD_eq_getD_getElem?, inside] at hx
      simp [children, elements, size, Array.getD_eq_getD_getElem?] at outside hc
      simp [outside] at hc

/-! ### One element -/

def readAt (h : Heap) (a : ArrayId) (index : Int) : Except ValueError Value :=
  let items := h.elements a
  if index < 0 then .error (.indexOutOfRange index items.length)
  else match items[index.toNat]? with
    | some v => .ok v
    | none => .error (.indexOutOfRange index items.length)

def checkWrite (h : Heap) (a : ArrayId) (index : Int) (v : Value) : Except ValueError Unit :=
  let length := (h.elements a).length
  if h.reaches v a then .error .cyclicArray
  else if 0 ≤ index ∧ index < length then .ok ()
  else .error (.indexOutOfRange index length)

/-- The heap with the element at an index replaced, if there is one. -/
def put (h : Heap) (a : ArrayId) (index : Nat) (v : Value) : Heap :=
  h.replace a ((h.elements a).set index v)

def writeAt (h : Heap) (a : ArrayId) (index : Int) (v : Value) : Except ValueError Heap := do
  h.checkWrite a index v
  return h.put a index.toNat v

end Heap

end Scriptlet
