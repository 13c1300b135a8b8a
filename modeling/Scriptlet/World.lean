import Scriptlet.Statement

/-!
All open contexts and the heap that they share. A run takes place in one context and leaves the
others as they are. A routine runs one function of a script on copies of the arrays that it is given,
and the script text is dropped after the first run, so later ones know only the functions that are
compiled by then.
-/

namespace Scriptlet

structure World where
  heap : Heap := {}
  contexts : Array Context := #[]
  deriving DecidableEq, Repr

namespace World

/-- A context by its identity. One that was never opened knows nothing. -/
def context (w : World) (id : ContextId) : Context :=
  w.contexts.getD id.index .empty

def openContext (w : World) (c : Context) : ContextId × World :=
  let id : ContextId := ⟨w.contexts.size⟩
  (id, { w with contexts := w.contexts.push { c with id } })

def setContext (w : World) (id : ContextId) (c : Context) : World :=
  { w with contexts := w.contexts.setIfInBounds id.index c }

/-- Runs in a context. What the run did to the heap and the context stays, whatever its outcome. -/
def run {α : Type} (w : World) (id : ContextId) (action : Run α) : Except Halt α × World :=
  match EStateM.run action ⟨w.heap, w.context id⟩ with
  | .ok a state => (.ok a, { w with heap := state.heap }.setContext id state.context)
  | .error halt state => (.error halt, { w with heap := state.heap }.setContext id state.context)

def resolve (w : World) (id : ContextId) (name : Text) : Except Halt BoundFunction × World :=
  let (result, c) := (w.context id).compile name
  ((result.map fun f => ⟨f, id⟩).mapError .error, w.setContext id c)

/-- Calls a function value in its own context. -/
def call (w : World) (f : BoundFunction) (args : List Value) : Except Halt Value × World :=
  w.run f.context (f.function.call args)

def release (w : World) (id : ContextId) : World :=
  w.setContext id (w.context id).release

end World

structure Routine where
  context : ContextId
  entry : BoundFunction
  deriving DecidableEq, Repr

namespace Routine

/-- Compiles the entry function of a script in a context of its own. -/
def ofScript (w : World) (script name : Text) (limits : Limits) : Except Halt Routine × World :=
  let (id, w) := w.openContext (.ofScript script limits)
  let (entry, w) := w.resolve id name
  (entry.map fun entry => ⟨id, entry⟩, w)

def eval (r : Routine) (w : World) (args : List Value) : Except Halt Value × World :=
  let (copies, heap) := w.heap.copyArrays args
  let (result, w) := { w with heap }.call r.entry copies
  (result, w.release r.context)

end Routine

end Scriptlet
