import Scriptlet.Proofs.Run.Settled
import Scriptlet.Proofs.World.FreshContext

/-!
Routines made from a script. Whatever happened since, a routine is still one function of the script
and the context in which it was compiled, and a run of it is a call of the function on the copies of
the arguments, followed by the release of that context. So a later run has to do with what is compiled
by then. If one run had a value that is everything: from then on the routine gives on any arguments and
any heap what a routine newly made from the script would give.
-/

namespace Scriptlet.Routine

variable {w w' : World} {script name : Text} {limits : Limits} {f : Function} {r : Routine}

/-- A routine for a function of a script, made at some time before. -/
structure Built (script : Text) (limits : Limits) (f : Function) (r : Routine) (w : World) :
    Prop where
  opened : World.Opened script limits r.context w
  home : r.entry.context = r.context
  function : r.entry.function = f

theorem built_of_ofScript (h : ofScript w script name limits = (.ok r, w')) :
    ∃ f, Function.extract script name = .ok f ∧ Built script limits f r w' := by
  let begun := Context.ofScript script limits
  let id := (w.openContext begun).1
  let start := (w.openContext begun).2
  have hstart : World.Opened script limits id start := World.opened_openContext w script limits
  have hmade : ((start.resolve id name).1.map fun entry => (⟨id, entry⟩ : Routine)) = .ok r :=
    congrArg Prod.fst h
  obtain rfl : (start.resolve id name).2 = w' := congrArg Prod.snd h
  cases hresolve : (start.resolve id name).1 with
  | error halt =>
    rw [hresolve] at hmade
    cases hmade
  | ok entry =>
    rw [hresolve] at hmade
    cases hmade
    obtain ⟨hcontext, hextract⟩ := hstart.extract_of_resolve hresolve
    exact ⟨entry.function, hextract, hstart.history [.resolve id name], hcontext, rfl⟩

/-- A routine can be made for any function that the script declares, and then its context still has the
text. -/
theorem ofScript_of_extract (w : World) (limits : Limits)
    (hf : Function.extract script name = .ok f) :
    ∃ r w', ofScript w script name limits = (.ok r, w') ∧ w'.heap = w.heap ∧
      Built script limits f r w' ∧ (w'.context r.context).script = some script := by
  let opened := w.openContext (.ofScript script limits)
  have hopened : World.Opened script limits opened.1 opened.2 :=
    World.opened_openContext w script limits
  have hscript := World.script_openContext w script limits
  obtain ⟨g, hfunction, hg⟩ := World.resolve_of_extract hopened hscript hf
  have hmade : ofScript w script name limits = (.ok ⟨opened.1, ⟨g, opened.1⟩⟩,
      (opened.2.resolve opened.1 name).2) :=
    congrArg (fun found => (found.map fun entry => (⟨opened.1, entry⟩ : Routine), _)) hg
  refine ⟨_, _, hmade, rfl, ⟨hopened.history [.resolve opened.1 name], rfl, hfunction⟩, ?_⟩
  rw [Operation.context_resolve hopened.there, if_pos rfl]
  exact (Context.script_resolve _ name).trans hscript

/-- For a name that the script does not declare there is no routine, and no array is made. -/
theorem ofScript_of_error (w : World) (limits : Limits) {reason : DeclarationError}
    (h : Function.extract script name = .error reason) :
    ∃ w', ofScript w script name limits = (.error (.error (.declaration reason)), w') ∧
      w'.heap = w.heap := by
  let opened := w.openContext (.ofScript script limits)
  have hopened : World.Opened script limits opened.1 opened.2 :=
    World.opened_openContext w script limits
  have hnone := World.resolve_of_extract_error hopened (World.script_openContext w script limits) h
  have hmade : ofScript w script name limits = (.error (.error (.declaration reason)),
      (opened.2.resolve opened.1 name).2) :=
    congrArg (fun found => (found.map fun entry => (⟨opened.1, entry⟩ : Routine), _)) hnone
  exact ⟨_, hmade, rfl⟩

namespace Built

def entryState (r : Routine) (w : World) (args : List Value) : State :=
  ⟨(w.heap.copyArrays args).2, w.context r.context⟩

theorem history (h : Built script limits f r w) (ops : List Operation) :
    Built script limits f r (ops.foldl Operation.perform w) :=
  { h with opened := h.opened.history ops }

/-- What is done to the heap besides makes no difference to a routine. -/
theorem with_heap (h : Built script limits f r w) (heap : Heap) :
    Built script limits f r { w with heap } :=
  ⟨⟨h.opened.there, h.opened.faithful⟩, h.home, h.function⟩

theorem outcome_eval (h : Built script limits f r w) (args : List Value) :
    (r.eval w args).1 =
      (f.call (w.heap.copyArrays args).1).outcome (entryState r w args) := by
  show ((prepared w args).call r.entry (w.heap.copyArrays args).1).1 = _
  rw [World.call, h.home, h.function]
  exact World.run_fst _ _ _

theorem heap_eval_eq (h : Built script limits f r w) (args : List Value) :
    (r.eval w args).2.heap =
      ((f.call (w.heap.copyArrays args).1).finish (entryState r w args)).heap := by
  rw [heap_eval, World.call, h.home, h.function]
  exact World.heap_run _ _ _

theorem context_eval (h : Built script limits f r w) (args : List Value) :
    (r.eval w args).2.context r.context =
      ((f.call (w.heap.copyArrays args).1).finish (entryState r w args)).context.release := by
  show (((prepared w args).call r.entry (w.heap.copyArrays args).1).2.release r.context).context
    r.context = _
  have hthere : r.context.index < (prepared w args).contexts.size := h.opened.there
  rw [World.call, h.home, h.function, World.context_release _ (by rw [World.size_contexts_run]; exact hthere),
    World.context_run_self _ hthere]
  rfl

end Built

/-! ### Routines that have run -/

/-- A run with a value settles the entry function, and the release does not undo that. -/
theorem Built.settled_of_eval (h : Built script limits f r w) {args : List Value} {v : Value}
    (hv : (r.eval w args).1 = .ok v) :
    f.Settled ((r.eval w args).2.context r.context) limits.callDepth := by
  rw [h.outcome_eval] at hv
  rw [h.context_eval]
  cases hrun : f.call (w.heap.copyArrays args).1 (entryState r w args) with
  | error halt t =>
    rw [Run.outcome_of_error hrun] at hv
    cases hv
  | ok v t =>
    rw [Run.finish_of_ok hrun]
    have hinvoke : f.invoke (w.context r.context).limits.callDepth _ _ = .ok _ _ := hrun
    have hsettled := (Function.settled_of_invoke hinvoke).2
    rw [h.opened.faithful.limits] at hsettled
    exact hsettled.grows (Context.Grows.refl _)

/-- Once a run of a routine had a value, whatever came before, every later run gives on any arguments
and any heap exactly what a routine newly made from the script gives there: the same value or error,
and the same arrays. It is never too late for a name, and calls are never nested too deep. -/
theorem eval_eq_eval_of_fresh (hr : ofScript w script name limits = (.ok r, w'))
    {before : List Operation} {args : List Value} {v : Value}
    (hv : (r.eval (before.foldl Operation.perform w') args).1 = .ok v)
    (between : List Operation) (h : Heap) (contexts : Array Context) (args' : List Value) :
    let later := between.foldl Operation.perform (r.eval (before.foldl Operation.perform w') args).2
    let now : World := { later with heap := h }
    ∃ r' fresh, ofScript ⟨h, contexts⟩ script name limits = (.ok r', fresh) ∧ fresh.heap = h ∧
      (r.eval now args').1 = (r'.eval fresh args').1 ∧
      (r.eval now args').2.heap = (r'.eval fresh args').2.heap ∧
      (∀ missing, (r.eval now args').1 ≠ .error (.error (.contextReleased missing))) ∧
      (r.eval now args').1 ≠ .error .tooDeep := by
  intro later now
  obtain ⟨f, hextract, hbuilt⟩ := built_of_ofScript hr
  have hfirst : Built script limits f r (before.foldl Operation.perform w') := hbuilt.history before
  have hsecond : Built script limits f r (r.eval (before.foldl Operation.perform w') args).2 :=
    hfirst.history [.eval r args]
  have hlater : Built script limits f r later := hsecond.history between
  have hnow : Built script limits f r now := hlater.with_heap h
  have hsettled : f.Settled (now.context r.context) limits.callDepth := by
    refine (hfirst.settled_of_eval hv).grows ?_
    show Context.Grows _ (later.context r.context)
    rw [World.context_history hsecond.opened.there]
    exact Context.grows_after _ _
  obtain ⟨r', fresh, hmade, hheap, hfresh, htext⟩ :=
    ofScript_of_extract ⟨h, contexts⟩ limits hextract
  have hown : ∀ halt, (r.eval now args').1 = .error halt → halt.isOwn = true := by
    rw [hnow.outcome_eval]
    refine Function.contained_call ?_ _ _
    rw [hnow.opened.faithful.limits]
    exact hsettled
  -- The used context and the new one differ only in names that it is too late for, and a settled
  -- function asks for none of those.
  have hsame := Run.outcome_call_eq hnow.opened.faithful hfresh.opened.faithful htext f
    (h.copyArrays args').1 (h.copyArrays args').2
  have hboth : (r.eval now args').1 = (r'.eval fresh args').1 ∧
      (r.eval now args').2.heap = (r'.eval fresh args').2.heap := by
    rw [hnow.outcome_eval, hfresh.outcome_eval, hnow.heap_eval_eq, hfresh.heap_eval_eq]
    unfold Built.entryState
    rw [hheap]
    refine hsame.resolve_right ?_
    rintro ⟨_, ⟨-, _, -, rfl⟩, hlate⟩
    exact Bool.noConfusion (hown _ ((hnow.outcome_eval args').trans hlate))
  refine ⟨r', fresh, hmade, hheap, hboth.1, hboth.2, fun missing hlate => ?_, fun hdeep => ?_⟩
  · exact Bool.noConfusion (hown _ hlate)
  · exact Bool.noConfusion (hown _ hdeep)

/-- The first run also compiles the function that the entry function calls, so that the second, after
the script text is gone, finds it. -/
theorem eval_eq_eval_of_fresh_callee :
    let id : ContextId := ⟨0⟩
    let r : Routine := ⟨id, ⟨⟨⟨id, 1⟩, ⟨['f'], [['a']], ["return g(a)".toList]⟩⟩, id⟩⟩
    let made := ofScript {} World.sampleScript ['f'] {}
    let later := (r.eval made.2 [.integer 1]).2
    let now : World := { later with heap := {} }
    made.1 = .ok r ∧ (r.eval made.2 [.integer 1]).1 = .ok (.integer 1) ∧
      ∃ r' fresh, ofScript {} World.sampleScript ['f'] {} = (.ok r', fresh) ∧
        (r.eval now [.text ['a']]).1 = (r'.eval fresh [.text ['a']]).1 ∧
        (r.eval now [.text ['a']]).1 = .ok (.text ['a']) := by
  intro id r made later now
  have hmade : made.1 = .ok r := by decide
  have hvalue : (r.eval ([].foldl Operation.perform made.2) [.integer 1]).1 = .ok (.integer 1) := by
    decide +kernel
  obtain ⟨r', fresh, hr', -, hsame, -⟩ := eval_eq_eval_of_fresh
    (Prod.ext hmade rfl) hvalue [] {} #[] [.text ['a']]
  exact ⟨hmade, hvalue, r', fresh, hr', hsame, by decide +kernel⟩

end Scriptlet.Routine
