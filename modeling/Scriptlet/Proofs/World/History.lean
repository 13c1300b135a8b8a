import Scriptlet.Proofs.Heap.WrittenOut
import Scriptlet.Proofs.World.Invariant

/-!
Everything that a host can do, one thing after the other, and the heaps that come of it: after every
operation and at every point inside a run, also in runs that fail in the middle. Starting from no
arrays, no array is ever nested in itself and none ever changes its length, so every value can be
written out and compared at any time.
-/

namespace Scriptlet

/-- One thing that a host does, on values that it already has. -/
inductive Operation where
  | makeArray (items : List Value)
  | setIndex (a : ArrayId) (index : Int) (v : Value)
  | reverse (v : Value)
  | slice (v : Value) (start : Int)
  | splitChars (t : Text)
  | copy (a : ArrayId)
  | openContext (script : Text) (limits : Limits)
  | resolve (id : ContextId) (name : Text)
  | release (id : ContextId)
  | statement (id : ContextId) (frame : Frame) (budget : Int) (t : Text)
  | expression (id : ContextId) (frame : Frame) (budget : Int) (t : Text)
  | call (f : BoundFunction) (args : List Value)
  | eval (r : Routine) (args : List Value)
  deriving DecidableEq, Repr

namespace Operation

def operands : Operation → List Value
  | .makeArray items => items
  | .setIndex a _ v => [.array a, v]
  | .reverse v | .slice v _ => [v]
  | .copy a => [.array a]
  | .statement _ frame _ _ | .expression _ frame _ _ => frame.bindings.map Prod.snd
  | .call _ args | .eval _ args => args
  | .splitChars _ | .openContext _ _ | .resolve _ _ | .release _ => []

def heapAfter (h : Heap) : Except ValueError Heap → Heap
  | .ok changed => changed
  | .error _ => h

/-- What an operation makes of the world, whether it succeeds or fails. -/
def perform (w : World) : Operation → World
  | .makeArray items => { w with heap := (w.heap.alloc items).2 }
  | .setIndex a index v => { w with heap := heapAfter w.heap (w.heap.writeAt a index v) }
  | .reverse v => { w with heap := heapAfter w.heap ((w.heap.reverse v).map Prod.snd) }
  | .slice v start => { w with heap := heapAfter w.heap ((w.heap.slice v start).map Prod.snd) }
  | .splitChars t => { w with heap := (w.heap.characters t).2 }
  | .copy a => { w with heap := (w.heap.copy a).2 }
  | .openContext script limits => (w.openContext (.ofScript script limits)).2
  | .resolve id name => (w.resolve id name).2
  | .release id => w.release id
  | .statement id frame budget t => (w.run id (Run.statement frame budget t)).2
  | .expression id frame budget t => (w.run id (Run.expression frame budget t)).2
  | .call f args => (w.call f args).2
  | .eval r args => (r.eval w args).2

/-- The heaps inside an operation that runs a script. -/
def heapsInside (w : World) : Operation → List Heap
  | .statement id frame budget t =>
    (Run.traceStatement frame budget t (w.state id)).map State.heap
  | .expression id frame budget t =>
    (Run.traceExpression frame budget t (w.state id)).map State.heap
  | .call f args => w.heapsOfCall f args
  | .eval r args => r.heaps w args
  | _ => []

variable {I : Heap.Invariant} {w : World}

theorem held_frame {h : Heap} {frame : Frame}
    (hall : ∀ v ∈ frame.bindings.map Prod.snd, I.Held h v) (s : State) (hs : s.heap = h) :
    frame.Held I.ofRuns s := by
  subst hs
  intro x v hx
  obtain ⟨before, after, hbindings, -⟩ := List.lookup_eq_some_iff.mp hx
  apply hall
  rw [hbindings]
  simp

/-- Holding a sequence keeps an invariant of the heap in whatever context that is. -/
theorem path_hold {q : Sequence} (id : ContextId) (h : I.Holds w.heap)
    (hq : q.Held I.ofRuns (w.state id)) : I.Path w.heap [] (w.heap.hold q).2 :=
  (Heap.keeps_hold (I := I.ofRuns) (s := w.state id) h hq).path.view

theorem path_reverse {v : Value} (h : I.Holds w.heap) (hv : I.Held w.heap v) :
    I.Path w.heap [] (heapAfter w.heap ((w.heap.reverse v).map Prod.snd)) := by
  unfold Heap.reverse
  cases hq : w.heap.sequence v with
  | error reason => exact .stay h
  | ok q =>
    have hheld := Heap.held_sequence (I := I.ofRuns) (s := w.state ⟨0⟩) h hv hq
    exact path_hold ⟨0⟩ h hheld.reverse

theorem path_slice {v : Value} {start : Int} (h : I.Holds w.heap) (hv : I.Held w.heap v) :
    I.Path w.heap [] (heapAfter w.heap ((w.heap.slice v start).map Prod.snd)) := by
  unfold Heap.slice
  cases hq : w.heap.sequence v with
  | error reason => exact .stay h
  | ok q =>
    have hheld := Heap.held_sequence (I := I.ofRuns) (s := w.state ⟨0⟩) h hv hq
    cases hrest : q.suffix start with
    | error reason =>
      simp only [bind, Except.bind, hrest]
      exact .stay h
    | ok rest =>
      simp only [bind, Except.bind, hrest]
      exact path_hold ⟨0⟩ h (hheld.suffix hrest)

theorem path_setIndex {a : ArrayId} {index : Int} {v : Value} (h : I.Holds w.heap)
    (ha : I.Held w.heap (.array a)) (hv : I.Held w.heap v) :
    I.Path w.heap [] (heapAfter w.heap (w.heap.writeAt a index v)) := by
  unfold Heap.writeAt
  cases hcheck : w.heap.checkWrite a index v with
  | error reason => exact .stay h
  | ok _ =>
    obtain ⟨hholds, hlater⟩ := I.write h ha hv hcheck
    exact .done hholds hlater

/-- Every operation keeps every invariant of the heap, if its operands may be held. -/
theorem path_perform (op : Operation) (h : I.Holds w.heap)
    (hoperands : ∀ v ∈ op.operands, I.Held w.heap v) :
    I.Path w.heap (op.heapsInside w) (op.perform w).heap := by
  cases op with
  | makeArray items =>
    obtain ⟨hmade, hlater, -⟩ := I.make h hoperands
    exact .done hmade hlater
  | setIndex a index v =>
    exact path_setIndex h (hoperands _ (by simp [operands])) (hoperands _ (by simp [operands]))
  | reverse v => exact path_reverse h (hoperands v (by simp [operands]))
  | slice v start => exact path_slice h (hoperands v (by simp [operands]))
  | splitChars t => exact path_hold ⟨0⟩ h (Sequence.held_singles t)
  | copy a =>
    have ha := hoperands (.array a) (by simp [operands])
    obtain ⟨hmade, hlater, -⟩ := I.make h fun v hv => I.held_element h ha hv
    exact .done hmade hlater
  | openContext script limits => exact .stay h
  | resolve id name => exact .stay h
  | release id => exact .stay h
  | statement id frame budget t =>
    have hframe := held_frame hoperands (w.state id) rfl
    exact World.path_run (Run.keeps_statement budget t h hframe)
  | expression id frame budget t =>
    have hframe := held_frame hoperands (w.state id) rfl
    exact World.path_run (Run.keeps_expression budget t h hframe)
  | call f args => exact World.path_call h hoperands
  | eval r args =>
    exact Routine.path_eval h fun v hv => Heap.Invariant.copyable_of_held (hoperands v hv)

end Operation

def Heap.sound : Heap.Invariant where
  Holds h := h.Closed ∧ h.Acyclic
  Later := Heap.KeepsLengths
  Held h v := h.Knows v
  later_refl := Heap.keepsLengths_refl
  later_trans := Heap.KeepsLengths.trans
  held_later hlater hv := hv.mono hlater.1
  held_scalar := by
    intro h v hscalar a ha
    rw [hscalar] at ha
    cases ha
  held_element holds _ hv := holds.1 _ _ hv
  make := by
    intro h items holds hitems
    have hmade : (h.alloc items).2.Knows (.array (h.alloc items).1) :=
      Heap.knows_array.mpr (by simp [Heap.alloc, Heap.size])
    refine ⟨⟨holds.1.alloc hitems, ?_⟩, Heap.keepsLengths_alloc h items, hmade⟩
    exact holds.2.alloc holds.1 hitems
  write := by
    intro h a index v holds _ hv hcheck
    have hnot := Heap.not_nested_of_checkWrite hcheck
    exact ⟨⟨holds.1.put hv, holds.2.put hnot⟩, Heap.keepsLengths_put h a index.toNat v⟩

namespace World

/-- Each operation works on values that are there by then. -/
def Legal (w : World) : List Operation → Prop
  | [] => True
  | op :: ops => (∀ v ∈ op.operands, w.heap.Knows v) ∧ Legal (op.perform w) ops

instance decidableLegal (w : World) (ops : List Operation) : Decidable (Legal w ops) :=
  match ops with
  | [] => isTrue trivial
  | op :: rest =>
    have := decidableLegal (op.perform w) rest
    inferInstanceAs (Decidable (_ ∧ _))

/-- All heaps that operations go through, one after the other. -/
def history (w : World) : List Operation → List Heap
  | [] => [w.heap]
  | op :: ops => w.heap :: op.heapsInside w ++ history (op.perform w) ops

theorem sound_empty : Heap.sound.Holds {} := by
  constructor
  · intro a v hv
    simp [Heap.elements] at hv
  · intro a b hb
    simp [Heap.children, Heap.elements] at hb

/-- The induction is on the operations: each takes up the heap where the one before left it. -/
theorem path_history {w : World} {ops : List Operation} (hlegal : w.Legal ops)
    (h : Heap.sound.Holds w.heap) :
    Heap.sound.Path w.heap (w.history ops) (ops.foldl Operation.perform w).heap := by
  induction ops generalizing w with
  | nil => exact .visit h (Heap.sound.later_refl _) (.stay h)
  | cons op ops ih =>
    obtain ⟨hoperands, hrest⟩ := hlegal
    have hop := Operation.path_perform op h hoperands
    have hwhole := hop.append (ih hrest hop.holds)
    exact .visit h (Heap.sound.later_refl _) hwhole

/-- From no arrays on, whatever is done: at every point no array is nested in itself and any value
can be written out and compared, and every array has the length that it had at any earlier point. -/
theorem history_keeps_arrays {ops : List Operation} (hlegal : World.Legal {} ops) :
    (∀ h ∈ World.history {} ops, h.Acyclic ∧ h.Readable) ∧
      (World.history {} ops).Pairwise Heap.KeepsLengths := by
  have hpath := path_history hlegal sound_empty
  refine ⟨?_, hpath.pairwise⟩
  intro h hh
  obtain ⟨hclosed, hacyclic⟩ := hpath.holds_of_mem h hh
  exact ⟨hacyclic, Heap.readable hacyclic hclosed⟩

def sampleOperations : List Operation :=
  [ .makeArray [.integer 1, .integer 2],
    .makeArray [.array ⟨0⟩, .array ⟨0⟩],
    .setIndex ⟨0⟩ 1 (.array ⟨1⟩),
    .openContext "function go(a){b=a[0];b[1]=a;return a}".toList {},
    .call ⟨⟨⟨⟨0⟩, 1⟩, ⟨"go".toList, ["a".toList], ["b=a[0]".toList, "b[1]=a".toList]⟩⟩, ⟨0⟩⟩
      [.array ⟨1⟩] ]

theorem history_keeps_arrays_sample :
    World.Legal {} sampleOperations ∧
      (∀ h ∈ World.history {} sampleOperations, h.Acyclic ∧ h.Readable) ∧
      (World.history {} sampleOperations).Pairwise Heap.KeepsLengths := by
  have hlegal : World.Legal {} sampleOperations := by decide
  exact ⟨hlegal, history_keeps_arrays hlegal⟩

end World

end Scriptlet
