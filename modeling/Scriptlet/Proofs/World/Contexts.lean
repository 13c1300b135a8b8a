import Scriptlet.Proofs.Run.Replay
import Scriptlet.Proofs.World.History

namespace Scriptlet

namespace World

variable {w : World} {id other : ContextId}

theorem context_setContext (w : World) (id other : ContextId) (c : Context) :
    (w.setContext id c).context other =
      if other = id ∧ id.index < w.contexts.size then c else w.context other := by
  obtain ⟨i⟩ := id
  obtain ⟨j⟩ := other
  simp only [context, setContext, Array.getD_eq_getD_getElem?, Array.getElem?_setIfInBounds,
    ContextId.mk.injEq]
  by_cases hij : i = j
  · subst hij
    by_cases hlt : i < w.contexts.size <;> simp [hlt]
  · simp [hij, Ne.symm hij]

theorem run_snd {α : Type} (w : World) (id : ContextId) (action : Run α) :
    (w.run id action).2 = { w with heap := (action.finish (w.state id)).heap }.setContext id
      (action.finish (w.state id)).context := by
  unfold World.run Run.finish EStateM.run state
  cases action ⟨w.heap, w.context id⟩ <;> rfl

theorem context_run_self {α : Type} (action : Run α) (hid : id.index < w.contexts.size) :
    (w.run id action).2.context id = (action.finish (w.state id)).context := by
  rw [run_snd, context_setContext]
  exact if_pos ⟨rfl, hid⟩

theorem context_run_of_ne {α : Type} (w : World) (action : Run α) (h : other ≠ id) :
    (w.run id action).2.context other = w.context other := by
  rw [run_snd, context_setContext]
  exact if_neg fun hsame => h hsame.1

theorem context_release (w : World) (hid : id.index < w.contexts.size) :
    (w.release id).context id = (w.context id).release := by
  unfold release
  rw [context_setContext]
  exact if_pos ⟨rfl, hid⟩

theorem context_release_of_ne (w : World) (h : other ≠ id) :
    (w.release id).context other = w.context other := by
  unfold release
  rw [context_setContext]
  exact if_neg fun hsame => h hsame.1

theorem setContext_context (w : World) (id : ContextId) : w.setContext id (w.context id) = w := by
  obtain ⟨heap, contexts⟩ := w
  unfold setContext context
  congr 1
  apply Array.ext
  · simp
  · intro i hi hi'
    rw [Array.getElem_setIfInBounds hi']
    split
    · rename_i hsame
      subst hsame
      exact (Array.getElem_eq_getD Context.empty).symm
    · rfl

theorem context_openContext_self (w : World) (c : Context) :
    (w.openContext c).2.context (w.openContext c).1 = { c with id := (w.openContext c).1 } := by
  simp [openContext, context, Array.getD_eq_getD_getElem?]

theorem context_openContext (c : Context) (hid : id.index < w.contexts.size) :
    (w.openContext c).2.context id = w.context id := by
  simp [openContext, context, Array.getD_eq_getD_getElem?, Array.getElem?_push, hid,
    Nat.ne_of_lt hid]

@[simp] theorem size_contexts_setContext (w : World) (id : ContextId) (c : Context) :
    (w.setContext id c).contexts.size = w.contexts.size := by
  simp [setContext]

@[simp] theorem size_contexts_run {α : Type} (w : World) (id : ContextId) (action : Run α) :
    (w.run id action).2.contexts.size = w.contexts.size := by
  simp [run_snd]

end World

namespace Operation

variable {w : World} {id : ContextId}

def contexts : Operation → List ContextId
  | .resolve id _ | .release id | .statement id _ _ _ | .expression id _ _ _ => [id]
  | .call f _ => [f.context]
  | .eval r _ => [r.entry.context, r.context]
  | .makeArray _ | .setIndex _ _ _ | .reverse _ | .slice _ _ | .splitChars _ | .copy _
  | .openContext _ _ => []

/-- What happens to a context in an operation, in order. -/
def events (w : World) (id : ContextId) : Operation → List Context.Event
  | .resolve place name => if place = id then [.lookup name] else []
  | .release place => if place = id then [.release] else []
  | .statement place frame budget t =>
    if place = id then Context.lookedUp (Run.lookupsOfStatement frame budget t (w.state id)) else []
  | .expression place frame budget t =>
    if place = id then Context.lookedUp (Run.lookupsOfExpression frame budget t (w.state id)) else []
  | .call f args =>
    if f.context = id then Context.lookedUp (f.function.lookups args (w.state id)) else []
  | .eval r args =>
    let copies := (w.heap.copyArrays args).1
    (if r.entry.context = id then
      Context.lookedUp (r.entry.function.lookups copies ((Routine.prepared w args).state id))
    else []) ++ if r.context = id then [.release] else []
  | .makeArray _ | .setIndex _ _ _ | .reverse _ | .slice _ _ | .splitChars _ | .copy _
  | .openContext _ _ => []

/-- A run in some context, seen from any: the lookups are those of the run if it is the same one. -/
theorem context_run_eq {α : Type} {action : Run α} {names : Lookups} {place : ContextId}
    (hid : id.index < w.contexts.size)
    (hrun : ∀ s, (action.finish s).context = s.context.after (Context.lookedUp (names s))) :
    (w.run place action).2.context id = (w.context id).after
      (if place = id then Context.lookedUp (names (w.state id)) else []) := by
  split
  · rename_i hplace
    subst hplace
    exact (World.context_run_self action hid).trans (hrun _)
  · rename_i hplace
    exact World.context_run_of_ne w action (Ne.symm hplace)

theorem context_resolve (hid : id.index < w.contexts.size) (place : ContextId) (name : Text) :
    (w.resolve place name).2.context id =
      (w.context id).after (if place = id then [.lookup name] else []) := by
  show (w.setContext place ((w.context place).compile name).2).context id = _
  rw [World.context_setContext]
  by_cases hplace : place = id
  · subst hplace
    rw [if_pos ⟨rfl, hid⟩, if_pos rfl]
    rfl
  · rw [if_neg fun hsame => hplace hsame.1.symm, if_neg hplace]
    rfl

theorem context_release (hid : id.index < w.contexts.size) (place : ContextId) :
    (w.release place).context id =
      (w.context id).after (if place = id then [.release] else []) := by
  split
  · rename_i hplace
    subst hplace
    exact World.context_release w hid
  · rename_i hplace
    exact World.context_release_of_ne w (Ne.symm hplace)

/-- An operation does nothing to a context but what is listed. -/
theorem context_perform (op : Operation) (hid : id.index < w.contexts.size) :
    (op.perform w).context id = (w.context id).after (op.events w id) := by
  cases op with
  | makeArray | setIndex | reverse | slice | splitChars | copy => rfl
  | openContext script limits => exact World.context_openContext _ hid
  | resolve place name => exact context_resolve hid place name
  | release place => exact context_release hid place
  | statement place frame budget t =>
    exact context_run_eq hid (Run.context_statement frame budget t)
  | expression place frame budget t =>
    exact context_run_eq hid (Run.context_expression frame budget t)
  | call f args => exact context_run_eq hid (Run.context_call f.function args)
  | eval r args =>
    have hcall : ((Routine.prepared w args).call r.entry (w.heap.copyArrays args).1).2.context id =
        (w.context id).after _ :=
      context_run_eq hid (Run.context_call r.entry.function (w.heap.copyArrays args).1)
    have hsize : id.index < ((Routine.prepared w args).call r.entry
        (w.heap.copyArrays args).1).2.contexts.size := by
      unfold World.call
      rw [World.size_contexts_run]
      exact hid
    rw [events, Context.after_append]
    exact (context_release hsize r.context).trans (congrArg (Context.after · _) hcall)

theorem events_of_not_mem {op : Operation} (h : id ∉ op.contexts) : op.events w id = [] := by
  cases op with
  | makeArray | setIndex | reverse | slice | splitChars | copy | openContext => rfl
  | resolve place | release place | statement place | expression place =>
    exact if_neg fun hplace => h (List.mem_singleton.mpr hplace.symm)
  | call f args => exact if_neg fun hplace => h (List.mem_singleton.mpr hplace.symm)
  | eval r args =>
    have hentry : r.entry.context ≠ id := fun hsame => h (by simp [contexts, hsame])
    have hrelease : r.context ≠ id := fun hsame => h (by simp [contexts, hsame])
    simp only [events, if_neg hentry, if_neg hrelease, List.append_nil]

def releases : Operation → List ContextId
  | .release id => [id]
  | .eval r _ => [r.context]
  | _ => []

theorem release_mem_events {op : Operation} :
    Context.Event.release ∈ op.events w id ↔ id ∈ op.releases := by
  have hlookups : ∀ place names,
      Context.Event.release ∉ if place = id then Context.lookedUp names else [] := by
    intro place names
    split <;> simp [Context.lookedUp]
  have hrelease : ∀ place : ContextId,
      (Context.Event.release ∈ if place = id then [.release] else []) ↔ id ∈ [place] := by
    intro place
    split <;> simp_all [eq_comm]
  cases op with
  | release place => exact hrelease place
  | eval r args =>
    rw [events, List.mem_append]
    exact (or_iff_right (hlookups _ _)).trans (hrelease r.context)
  | resolve place name => exact iff_of_false (hlookups place [name]) List.not_mem_nil
  | statement | expression | call => exact iff_of_false (hlookups _ _) List.not_mem_nil
  | _ => exact iff_of_false List.not_mem_nil List.not_mem_nil

theorem size_contexts_perform (w : World) (op : Operation) :
    w.contexts.size ≤ (op.perform w).contexts.size := by
  cases op <;> simp [perform, World.openContext, World.resolve, World.release, World.call,
    Routine.eval]

end Operation

/-! ### What holds at every point of a history -/

namespace Context

variable {c d : Context}

/-- What a context keeps from an earlier point on: its entries, and once it is released all of it,
so that an unknown name stays unknown. -/
structure Kept (c d : Context) : Prop where
  entries : c.compiled <:+ d.compiled
  released : c.isReleased = true → d = c
  unknown : c.isReleased = true → ∀ name, d.compiled? name = none → ∀ h : Heap,
    Run.resolve name ⟨h, d⟩ = .error (.error (.contextReleased name)) ⟨h, d⟩

theorem kept_after (c : Context) (events : List Event) : c.Kept (c.after events) := by
  refine ⟨c.suffix_after events, ?_, ?_⟩
  · intro hreleased
    exact after_of_released (Option.isNone_iff_eq_none.mp hreleased) events
  · intro hreleased name hunknown h
    have hscript := Option.isNone_iff_eq_none.mp hreleased
    rw [after_of_released hscript] at hunknown ⊢
    rw [Run.resolve_eq, resolve_of_released hscript hunknown]
    rfl

end Context

namespace World

variable {w : World} {id : ContextId}

/-- What happens to a context while a host does one thing after the other. -/
def events (w : World) (id : ContextId) : List Operation → List Context.Event
  | [] => []
  | op :: ops => op.events w id ++ events (op.perform w) id ops

/-- Whatever a host does, a context goes through events of its own, so what holds after any events
holds of it at any time. -/
theorem context_history (hid : id.index < w.contexts.size) (ops : List Operation) :
    (ops.foldl Operation.perform w).context id = (w.context id).after (w.events id ops) := by
  induction ops generalizing w with
  | nil => rfl
  | cons op ops ih =>
    have hsize : id.index < (op.perform w).contexts.size :=
      Nat.lt_of_lt_of_le hid (op.size_contexts_perform w)
    rw [events, Context.after_append, ← Operation.context_perform op hid]
    exact ih hsize

theorem size_contexts_history (w : World) (ops : List Operation) :
    w.contexts.size ≤ (ops.foldl Operation.perform w).contexts.size :=
  List.foldlRecOn (motive := fun v => w.contexts.size ≤ v.contexts.size) ops Operation.perform
    (Nat.le_refl _) fun v h op _ => h.trans (op.size_contexts_perform v)

theorem resolve_eq_ok {name : Text} {f : BoundFunction} (h : (w.resolve id name).1 = .ok f) :
    f.context = id ∧ ((w.context id).compile name).1 = .ok f.toCompiledFunction := by
  have hmapped : (((w.context id).compile name).1.map fun g => (⟨g, id⟩ : BoundFunction)).mapError
      Halt.error = .ok f := h
  cases hcompile : ((w.context id).compile name).1 with
  | error reason => simp [hcompile, Except.map, Except.mapError] at hmapped
  | ok g =>
    rw [hcompile] at hmapped
    cases hmapped
    exact ⟨rfl, rfl⟩

/-- A context that was opened for a script and has a history behind it. -/
structure Opened (script : Text) (limits : Limits) (id : ContextId) (w : World) : Prop where
  there : id.index < w.contexts.size
  faithful : (w.context id).Faithful script limits

theorem opened_openContext (w : World) (script : Text) (limits : Limits) :
    Opened script limits (w.openContext (.ofScript script limits)).1
      (w.openContext (.ofScript script limits)).2 where
  there := by simp [openContext]
  faithful := by
    rw [context_openContext_self]
    exact (Context.Faithful.ofScript script limits).place _

namespace Opened

variable {script : Text} {limits : Limits}

theorem history (h : Opened script limits id w) (ops : List Operation) :
    Opened script limits id (ops.foldl Operation.perform w) where
  there := Nat.lt_of_lt_of_le h.there (w.size_contexts_history ops)
  faithful := by
    rw [context_history h.there]
    exact h.faithful.after _

theorem kept (h : Opened script limits id w) (ops : List Operation) :
    (w.context id).Kept ((ops.foldl Operation.perform w).context id) := by
  rw [context_history h.there]
  exact Context.kept_after _ _

theorem extract_of_resolve (h : Opened script limits id w) {name : Text} {f : BoundFunction}
    (hf : (w.resolve id name).1 = .ok f) :
    f.context = id ∧ Function.extract script name = .ok f.function := by
  obtain ⟨hcontext, hcompile⟩ := resolve_eq_ok hf
  exact ⟨hcontext, h.faithful.extract_of_resolve (Context.resolve_eq_ok.mpr ⟨_, hcompile, rfl⟩)⟩

end Opened

def sampleScript : Text :=
  "function f(a){return g(a)};function g(a){return a}".toList

end World

end Scriptlet
