import Scriptlet.Proofs.Run.Preservation
import Scriptlet.World

/-!
Invariants of the heap that all contexts share. Contexts take turns on it, so what a run in one of
them keeps has to be said of the heap alone; then it carries over from run to run. A routine copies
the arrays that it is given and runs on the copies, so less is asked of its arguments: only what is
in those arrays may be held, and not the arrays themselves.
-/

namespace Scriptlet

structure Heap.Invariant extends Course Heap where
  /-- The values that a variable may have. -/
  Held : Heap → Value → Prop
  held_later : ∀ {h g v}, Later h g → Held h v → Held g v
  held_scalar : ∀ {h v}, v.array? = none → Held h v
  held_element : ∀ {h a v}, Holds h → Held h (.array a) → v ∈ h.elements a → Held h v
  make : ∀ {h items}, Holds h → (∀ v ∈ items, Held h v) →
    let made := h.alloc items
    Holds made.2 ∧ Later h made.2 ∧ Held made.2 (.array made.1)
  write : ∀ {h a index v}, Holds h → Held h (.array a) → Held h v →
    h.checkWrite a index v = .ok () →
    Holds (h.put a index.toNat v) ∧ Later h (h.put a index.toNat v)

namespace Heap.Invariant

variable {I : Heap.Invariant} {h : Heap}

/-- An invariant of the heap as one of runs, whatever their contexts. -/
def ofRuns (I : Heap.Invariant) : Run.Invariant where
  toCourse := I.toCourse.through State.heap
  Held s := I.Held s.heap
  held_later := I.held_later
  held_scalar := I.held_scalar
  held_element := I.held_element
  make := I.make
  write := I.write
  compile _ holds := ⟨holds, I.later_refl _⟩

/-- What is in an argument array may be held, also after other arguments were copied. -/
def Copyable (I : Heap.Invariant) (h : Heap) (v : Value) : Prop :=
  ∀ a, v = .array a → ∀ g, I.Holds g → I.Later h g → ∀ w ∈ g.elements a, I.Held g w

theorem Copyable.later {g : Heap} {v : Value} (hv : I.Copyable h v) (hlater : I.Later h g) :
    I.Copyable g v := by
  intro a ha f hholds hnext
  exact hv a ha f hholds (I.later_trans hlater hnext)

theorem copyable_of_held {v : Value} (hv : I.Held h v) : I.Copyable h v := by
  rintro a rfl g hholds hlater w hw
  exact I.held_element hholds (I.held_later hlater hv) hw

/-- Copying the arrays among the arguments gives values that may be held. -/
theorem copyArrays {args : List Value} (hholds : I.Holds h)
    (hargs : ∀ v ∈ args, I.Copyable h v) :
    I.Path h [] (h.copyArrays args).2 ∧
      ∀ v ∈ (h.copyArrays args).1, I.Held (h.copyArrays args).2 v := by
  induction args generalizing h with
  | nil => exact ⟨.stay hholds, by simp [Heap.copyArrays]⟩
  | cons arg args ih =>
    have hrest : ∀ v ∈ args, I.Copyable h v := fun v hv => hargs v (by simp [hv])
    cases arg with
    | array a =>
      have helements := hargs (.array a) (by simp) a rfl h hholds (I.later_refl h)
      obtain ⟨hmade, hlater, hheld⟩ := I.make hholds helements
      obtain ⟨hpath, hcopies⟩ := ih hmade fun v hv => (hrest v hv).later hlater
      refine ⟨hpath.shift hlater, ?_⟩
      intro v hv
      rcases List.mem_cons.mp hv with rfl | hv
      · exact I.held_later hpath.later hheld
      · exact hcopies v hv
    | _ =>
      obtain ⟨hpath, hcopies⟩ := ih hholds hrest
      refine ⟨hpath, ?_⟩
      intro v hv
      rcases List.mem_cons.mp hv with rfl | hv
      · exact I.held_scalar rfl
      · exact hcopies v hv

end Heap.Invariant

namespace World

variable {I : Heap.Invariant} {w : World}

def state (w : World) (id : ContextId) : State :=
  ⟨w.heap, w.context id⟩

theorem heap_run {α : Type} (w : World) (id : ContextId) (action : Run α) :
    (w.run id action).2.heap = (action.finish (w.state id)).heap := by
  unfold World.run Run.finish EStateM.run state
  cases action ⟨w.heap, w.context id⟩ <;> rfl

theorem run_eq_ok {α : Type} {id : ContextId} {action : Run α} {a : α}
    (h : (w.run id action).1 = .ok a) :
    ∃ t, action (w.state id) = .ok a t ∧ (w.run id action).2.heap = t.heap := by
  unfold World.run EStateM.run at h ⊢
  unfold state
  cases hrun : action ⟨w.heap, w.context id⟩ with
  | ok b t =>
    rw [hrun] at h
    cases h
    exact ⟨t, rfl, rfl⟩
  | error halt t =>
    rw [hrun] at h
    cases h

/-- A run in a context takes the heap through the heaps of its states. -/
theorem path_run {α : Type} {id : ContextId} {action : Run α} {states : List State}
    {Result : State → α → Prop} (h : I.ofRuns.Keeps (w.state id) action states Result) :
    I.Path w.heap (states.map State.heap) (w.run id action).2.heap := by
  rw [heap_run]
  exact h.path.view

def heapsOfCall (w : World) (f : BoundFunction) (args : List Value) : List Heap :=
  (Function.trace f.function args (w.state f.context)).map State.heap

theorem path_call {f : BoundFunction} {args : List Value} (h : I.Holds w.heap)
    (hargs : ∀ v ∈ args, I.Held w.heap v) :
    I.Path w.heap (w.heapsOfCall f args) (w.call f args).2.heap :=
  path_run (Function.keeps_call (I := I.ofRuns) (s := w.state f.context) h hargs)

theorem held_call {f : BoundFunction} {args : List Value} {v : Value} (h : I.Holds w.heap)
    (hargs : ∀ v ∈ args, I.Held w.heap v) (hv : (w.call f args).1 = .ok v) :
    I.Held (w.call f args).2.heap v := by
  obtain ⟨t, hrun, hheap⟩ := run_eq_ok hv
  have hkeeps : I.ofRuns.Keeps (w.state f.context) (f.function.call args) _ I.ofRuns.Held :=
    Function.keeps_call (I := I.ofRuns) h hargs
  have hheld : I.Held t.heap v := hkeeps.result hrun
  exact hheap ▸ hheld

end World

namespace Routine

variable {I : Heap.Invariant} {r : Routine} {w : World} {args : List Value}

def prepared (w : World) (args : List Value) : World :=
  { w with heap := (w.heap.copyArrays args).2 }

def heaps (r : Routine) (w : World) (args : List Value) : List Heap :=
  (prepared w args).heap :: (prepared w args).heapsOfCall r.entry (w.heap.copyArrays args).1

theorem heap_eval (r : Routine) (w : World) (args : List Value) :
    (r.eval w args).2.heap =
      ((prepared w args).call r.entry (w.heap.copyArrays args).1).2.heap :=
  rfl

theorem path_eval (h : I.Holds w.heap) (hargs : ∀ v ∈ args, I.Copyable w.heap v) :
    I.Path w.heap (r.heaps w args) (r.eval w args).2.heap := by
  obtain ⟨hcopied, hcopies⟩ := Heap.Invariant.copyArrays h hargs
  have hcall := World.path_call (w := prepared w args) (f := r.entry) hcopied.holds hcopies
  exact hcopied.noted.append hcall

theorem held_eval {v : Value} (h : I.Holds w.heap) (hargs : ∀ v ∈ args, I.Copyable w.heap v)
    (hv : (r.eval w args).1 = .ok v) : I.Held (r.eval w args).2.heap v := by
  obtain ⟨hcopied, hcopies⟩ := Heap.Invariant.copyArrays h hargs
  exact World.held_call (w := prepared w args) hcopied.holds hcopies hv

end Routine

end Scriptlet
