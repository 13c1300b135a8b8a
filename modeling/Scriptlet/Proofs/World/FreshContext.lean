import Scriptlet.Proofs.Run.Replay
import Scriptlet.Proofs.World.Contexts

namespace Scriptlet.World

variable {w : World} {id : ContextId} {script name : Text} {limits : Limits}

theorem run_fst {α : Type} (w : World) (id : ContextId) (action : Run α) :
    (w.run id action).1 = action.outcome (w.state id) := by
  unfold World.run Run.outcome EStateM.run state
  cases action ⟨w.heap, w.context id⟩ <;> rfl

theorem state_resolve (hid : id.index < w.contexts.size) (name : Text) :
    (w.resolve id name).2.state id = ⟨w.heap, ((w.context id).resolve name).2⟩ := by
  unfold state
  rw [Operation.context_resolve hid, if_pos rfl]
  rfl

/-- A context that is opened for a script and has its text. -/
theorem resolve_of_extract {f : Function} (h : Opened script limits id w)
    (htext : (w.context id).script = some script) (hf : Function.extract script name = .ok f) :
    ∃ g : CompiledFunction, g.function = f ∧ (w.resolve id name).1 = .ok ⟨g, id⟩ := by
  have hresolve : ((w.context id).resolve name).1 = .ok f := by
    rw [h.faithful.resolve_eq_extract htext, hf]
    rfl
  obtain ⟨g, hg, hfunction⟩ := Context.resolve_eq_ok.mp hresolve
  refine ⟨g, hfunction, ?_⟩
  show (((w.context id).compile name).1.map fun g => (⟨g, id⟩ : BoundFunction)).mapError _ = _
  rw [hg]
  rfl

theorem resolve_of_extract_error {reason : DeclarationError} (h : Opened script limits id w)
    (htext : (w.context id).script = some script)
    (hf : Function.extract script name = .error reason) :
    (w.resolve id name).1 = .error (.error (.declaration reason)) := by
  have hresolve : ((w.context id).resolve name).1 = .error (.declaration reason) := by
    rw [h.faithful.resolve_eq_extract htext, hf]
    rfl
  show (((w.context id).compile name).1.map _).mapError _ = _
  rw [Context.resolve_eq_error.mp hresolve]
  rfl

theorem script_openContext (w : World) (script : Text) (limits : Limits) :
    let opened := w.openContext (.ofScript script limits)
    (opened.2.context opened.1).script = some script := by
  intro opened
  rw [context_openContext_self]
  rfl

/-- A call in a context with any history behind it ends as the same call in a fresh context for the
script, with the same value or error and the same arrays. Only if the context is released may it end
otherwise, namely with the error that it is too late for a name, and that is one that the context has
not compiled. -/
theorem call_eq_call_in_fresh (w : World) (script : Text) (limits : Limits) (ops : List Operation)
    (h : Heap) (contexts : Array Context) (name : Text) (args : List Value) :
    let begun := Context.ofScript script limits
    let id := (w.openContext begun).1
    let used : World := { ops.foldl Operation.perform (w.openContext begun).2 with heap := h }
    let id' := ((⟨h, contexts⟩ : World).openContext begun).1
    let fresh := ((⟨h, contexts⟩ : World).openContext begun).2
    ∀ f, (used.resolve id name).1 = .ok f →
      ∃ f', (fresh.resolve id' name).1 = .ok f' ∧ f'.function = f.function ∧
        let after := (used.resolve id name).2.call f args
        let expected := (fresh.resolve id' name).2.call f' args
        (after.1 = expected.1 ∧ after.2.heap = expected.2.heap) ∨
        ((used.context id).isReleased = true ∧ ∃ missing,
          (used.context id).compiled? missing = none ∧
            after.1 = .error (.error (.contextReleased missing))) := by
  intro begun id used id' fresh f hf
  have hopened : Opened script limits id (ops.foldl Operation.perform (w.openContext begun).2) :=
    (opened_openContext w script limits).history ops
  have hused : Opened script limits id used := ⟨hopened.there, hopened.faithful⟩
  have hfresh : Opened script limits id' fresh := opened_openContext ⟨h, contexts⟩ script limits
  have hscript : (fresh.context id').script = some script :=
    script_openContext ⟨h, contexts⟩ script limits
  obtain ⟨hcontext, hextract⟩ := hused.extract_of_resolve hf
  obtain ⟨g, hfunction, hf'⟩ := resolve_of_extract hfresh hscript hextract
  refine ⟨⟨g, id'⟩, hf', hfunction, ?_⟩
  have htext : ((fresh.context id').resolve name).2.script = some script :=
    (Context.script_resolve _ name).trans hscript
  have hcalls := Run.outcome_call_eq (hused.faithful.resolve name) (hfresh.faithful.resolve name)
    htext f.function args h
  have hfirst : (used.resolve id name).2.state f.context =
      ⟨h, ((used.context id).resolve name).2⟩ := hcontext ▸ state_resolve hused.there name
  have hsecond : (fresh.resolve id' name).2.state id' =
      ⟨h, ((fresh.context id').resolve name).2⟩ := state_resolve hfresh.there name
  unfold call
  simp only [run_fst, heap_run, hfirst, hsecond, hfunction]
  refine hcalls.imp_right ?_
  rintro ⟨halt, ⟨hreleased, missing, hmissing, rfl⟩, houtcome⟩
  rw [Context.script_resolve] at hreleased
  have hsame := Context.after_of_released hreleased [.lookup name]
  exact ⟨Option.isNone_iff_eq_none.mpr hreleased, missing, hsame ▸ hmissing, houtcome⟩

/-- A function that was compiled before the release and is called after it, when it is too late for
the function that it calls in turn. In a fresh context the call gives a value. -/
theorem call_eq_call_in_fresh_released :
    let used := [Operation.resolve ⟨0⟩ ['f'], .release ⟨0⟩].foldl Operation.perform
      (({} : World).openContext (.ofScript sampleScript {})).2
    let fresh := (({} : World).openContext (.ofScript sampleScript {})).2
    ∃ f, (used.resolve ⟨0⟩ ['f']).1 = .ok f ∧ (fresh.resolve ⟨0⟩ ['f']).1 = .ok f ∧
      ((fresh.resolve ⟨0⟩ ['f']).2.call f [.integer 1]).1 = .ok (.integer 1) ∧
      (used.context ⟨0⟩).isReleased = true ∧ ∃ missing,
        (used.context ⟨0⟩).compiled? missing = none ∧
          ((used.resolve ⟨0⟩ ['f']).2.call f [.integer 1]).1 =
            .error (.error (.contextReleased missing)) := by
  intro used fresh
  have hf : (used.resolve ⟨0⟩ ['f']).1 =
      .ok ⟨⟨⟨⟨0⟩, 1⟩, ⟨['f'], [['a']], ["return g(a)".toList]⟩⟩, ⟨0⟩⟩ := by decide
  have hfresh : (fresh.resolve ⟨0⟩ ['f']).1 =
      .ok ⟨⟨⟨⟨0⟩, 1⟩, ⟨['f'], [['a']], ["return g(a)".toList]⟩⟩, ⟨0⟩⟩ := by decide
  obtain ⟨f', hf', -, hends⟩ := call_eq_call_in_fresh {} sampleScript {}
    [.resolve ⟨0⟩ ['f'], .release ⟨0⟩] {} #[] ['f'] [.integer 1] _ hf
  obtain rfl := Except.ok.inj (hfresh.symm.trans hf')
  have hlate := hends.resolve_left (by decide +kernel)
  exact ⟨_, hf, hfresh, by decide +kernel, hlate⟩

end Scriptlet.World
