import Scriptlet.Proofs.World.Contexts

namespace Scriptlet

/-! ### One context -/

namespace Context

/-- What is compiled is what the text says under that name, each name once, and every search of the
text has either compiled a function or was refused. -/
structure Coherent (script : Text) (refused : Nat) (c : Context) : Prop where
  extracted : ∀ entry ∈ c.compiled,
    Function.extract script entry.1 = .ok entry.2.function ∧ entry.2.function.name = entry.1
  nodup : (c.compiled.map Prod.fst).Nodup
  counted : c.extractions = c.compiled.length + refused

theorem coherent_after (script : Text) (limits : Limits) (id : ContextId) (events : List Event) :
    let begun := { ofScript script limits with id }
    (begun.after events).Coherent script (begun.refusals events) := by
  intro begun
  have hfaithful := ((Faithful.ofScript script limits).place id).after events
  refine ⟨fun entry hentry => ?_, hfaithful.nodup, ?_⟩
  · have hextract := hfaithful.compiled entry hentry
    exact ⟨hextract, Function.name_of_extract hextract⟩
  · simpa [begun, ofScript] using begun.extractions_after events

end Context

namespace World

variable {w : World} {id : ContextId} {name : Text} {f : BoundFunction}

/-! ### The identity of compiled functions -/

/-- Every context knows its own place, and gives each function that it compiles an identity there. -/
structure Minted (w : World) : Prop where
  place : ∀ id : ContextId, id.index < w.contexts.size → (w.context id).id = id
  functions : ∀ id : ContextId, id.index < w.contexts.size → (w.context id).Minted

namespace Minted

theorem empty : ({} : World).Minted := by
  constructor <;> intro id hid <;> exact absurd hid (Nat.not_lt_zero _)

theorem openContext (h : w.Minted) (script : Text) (limits : Limits) :
    (w.openContext (.ofScript script limits)).2.Minted := by
  let begun := Context.ofScript script limits
  have hcases : ∀ id : ContextId, id.index < (w.openContext begun).2.contexts.size →
      id.index < w.contexts.size ∨ id = (w.openContext begun).1 := by
    rintro ⟨i⟩ hi
    simp only [World.openContext, Array.size_push, ContextId.mk.injEq] at hi ⊢
    omega
  constructor
  · intro id hid
    rcases hcases id hid with hold | rfl
    · rw [context_openContext _ hold]
      exact h.place id hold
    · rw [context_openContext_self]
  · intro id hid
    rcases hcases id hid with hold | rfl
    · rw [context_openContext _ hold]
      exact h.functions id hold
    · rw [context_openContext_self]
      exact .of_compiled_eq_nil rfl

/-- Only opening a context makes a new one, and what happens to the others are events of theirs. -/
theorem perform (h : w.Minted) (op : Operation) : (op.perform w).Minted := by
  by_cases hsize : (op.perform w).contexts.size = w.contexts.size
  · constructor
    · intro id hid
      rw [op.context_perform (hsize ▸ hid), Context.id_after]
      exact h.place id (hsize ▸ hid)
    · intro id hid
      rw [op.context_perform (hsize ▸ hid)]
      exact (h.functions id (hsize ▸ hid)).after _
  · cases op with
    | openContext script limits => exact h.openContext script limits
    | _ => exact absurd (by simp [Operation.perform, World.resolve, World.release, World.call,
        Routine.eval]) hsize

theorem history (h : w.Minted) (ops : List Operation) :
    (ops.foldl Operation.perform w).Minted :=
  List.foldlRecOn ops Operation.perform h fun _ hv op _ => Minted.perform hv op

end Minted

/-- A context that was not opened knows no function. -/
theorem there_of_resolve (hf : (w.resolve id name).1 = .ok f) : id.index < w.contexts.size := by
  by_contra hout
  have hempty : w.context id = .empty := by
    simp [context, Array.getD_eq_getD_getElem?, Nat.not_lt.mp hout]
  have hcompile := (resolve_eq_ok hf).2
  rw [hempty] at hcompile
  cases hcompile

/-- What a lookup gives stands in its context from then on. -/
theorem mem_compiled_of_resolve (hf : (w.resolve id name).1 = .ok f) (later : List Operation) :
    (name, f.toCompiledFunction) ∈
      ((later.foldl Operation.perform (w.resolve id name).2).context id).compiled := by
  have hid := there_of_resolve hf
  have hsize : id.index < (w.resolve id name).2.contexts.size :=
    Nat.lt_of_lt_of_le hid (Operation.size_contexts_perform w (.resolve id name))
  rw [context_history hsize, Operation.context_resolve hid, if_pos rfl]
  apply (Context.suffix_after _ _).subset
  exact Context.mem_compiled_of_cached? (Context.cached?_of_compile (resolve_eq_ok hf).2)

/-- Two functions are the same exactly when they were compiled in one context under one name, so a
function that is looked up again is the one that was there. -/
theorem Minted.same_iff {script name' : Text} {limits : Limits} {other : ContextId}
    {f' : BoundFunction} (hw : w.Minted) (hopened : Opened script limits id w)
    (hf : (w.resolve id name).1 = .ok f) (later : List Operation)
    (hf' : ((later.foldl Operation.perform (w.resolve id name).2).resolve other name').1 = .ok f') :
    (f.Same f' ↔ id = other ∧ name = name') ∧ (f.Same f' ↔ f = f') := by
  let v := later.foldl Operation.perform (w.resolve id name).2
  let last := (v.resolve other name').2
  have hlast : last.Minted :=
    ((hw.perform (.resolve id name)).history later).perform (.resolve other name')
  have hopened : Opened script limits id last :=
    ((hopened.history [.resolve id name]).history later).history [.resolve other name']
  have hmem : (name, f.toCompiledFunction) ∈ (last.context id).compiled := by
    have hthen := mem_compiled_of_resolve hf (later ++ [.resolve other name'])
    rwa [List.foldl_append] at hthen
  have hmem' : (name', f'.toCompiledFunction) ∈ (last.context other).compiled :=
    mem_compiled_of_resolve hf' []
  have hother : other.index < last.contexts.size := by
    by_contra hout
    simp [context, Array.getD_eq_getD_getElem?, Nat.not_lt.mp hout, Context.empty] at hmem'
  have hsame : f.Same f' → id = other ∧ name = name' := by
    intro hid
    have hhome := (hlast.functions id hopened.there).home _ hmem
    have hhome' := (hlast.functions other hother).home _ hmem'
    rw [hlast.place id hopened.there] at hhome
    rw [hlast.place other hother] at hhome'
    obtain rfl : id = other := hhome.symm.trans ((congrArg FunctionId.context hid).trans hhome')
    exact ⟨rfl, ((hlast.functions id hopened.there).eq_of_id hmem hmem' hid).1⟩
  have heq : id = other ∧ name = name' → f = f' := by
    rintro ⟨rfl, rfl⟩
    have hentry := List.inj_on_of_nodup_map hopened.faithful.nodup hmem hmem' rfl
    have hcontext := (resolve_eq_ok hf).1.trans (resolve_eq_ok hf').1.symm
    obtain ⟨_, _⟩ := f
    obtain ⟨_, _⟩ := f'
    exact congrArg₂ BoundFunction.mk (congrArg Prod.snd hentry) hcontext
  have hrefl : f = f' → f.Same f' := congrArg fun g : BoundFunction => g.id
  exact ⟨⟨hsame, hrefl ∘ heq⟩, ⟨heq ∘ hsame, hrefl⟩⟩

/-- Once the script text is dropped, a lookup of a name that is not compiled says so and changes
nothing. -/
theorem resolve_of_released (hreleased : (w.context id).isReleased = true)
    (hunknown : (w.context id).compiled? name = none) :
    w.resolve id name = (.error (.error (.contextReleased name)), w) := by
  have hscript := Option.isNone_iff_eq_none.mp hreleased
  unfold resolve
  rw [Context.compile_of_released hscript hunknown]
  exact Prod.ext rfl (setContext_context w id)

theorem isReleased_perform (hid : id.index < w.contexts.size) (op : Operation) :
    ((op.perform w).context id).isReleased = true ↔
      (w.context id).isReleased = true ∨ id ∈ op.releases := by
  rw [op.context_perform hid, Context.isReleased_after, Operation.release_mem_events]

/-- A context that is opened for a script, among any others, with any history before and behind it.

At every time it is what comes of the events that concern it, those deep inside calls included; after
these, as after any events, what it has compiled is what the text says, and its searches are counted
right. From one time to a later one it keeps its entries. It is released by a release and by the run of
a routine, and by nothing else; once it is released it never changes, and a name that is not compiled is
only ever answered with the error for that. What happens in other contexts has no part in this. Two
functions that are looked up one after the other, the first in this context and the second in any, have
the same identity exactly when context and name are the same, and then they are one. -/
theorem contexts_stay_coherent (before : List Operation) (script : Text) (limits : Limits) :
    let opened := (before.foldl Operation.perform {}).openContext (.ofScript script limits)
    let id := opened.1
    let begun := opened.2.context id
    (∀ events, (begun.after events).Coherent script (begun.refusals events)) ∧
    (∀ earlier later : List Operation,
      let u := earlier.foldl Operation.perform opened.2
      let v := later.foldl Operation.perform u
      v.context id = begun.after (opened.2.events id (earlier ++ later)) ∧
      (u.context id).Kept (v.context id) ∧
      (∀ op : Operation, ((op.perform v).context id).isReleased = true ↔
        (v.context id).isReleased = true ∨ id ∈ op.releases) ∧
      ((v.context id).isReleased = true → ∀ name, (v.context id).compiled? name = none →
        v.resolve id name = (.error (.error (.contextReleased name)), v)) ∧
      ∀ op : Operation, id ∉ op.contexts → (op.perform v).context id = v.context id) ∧
    (∀ (earlier later : List Operation) (other : ContextId) (name name' : Text)
      (f f' : BoundFunction),
      let u := earlier.foldl Operation.perform opened.2
      let v := later.foldl Operation.perform (u.resolve id name).2
      (u.resolve id name).1 = .ok f → (v.resolve other name').1 = .ok f' →
        (f.Same f' ↔ id = other ∧ name = name') ∧ (f.Same f' ↔ f = f')) := by
  intro opened id begun
  have hopened : Opened script limits id opened.2 := opened_openContext _ script limits
  have hminted : opened.2.Minted := (Minted.empty.history before).openContext script limits
  have hbegun : begun = { Context.ofScript script limits with id } := context_openContext_self _ _
  refine ⟨?_, ?_, ?_⟩
  · rw [hbegun]
    exact Context.coherent_after script limits id
  · intro earlier later u v
    have hu : Opened script limits id u := hopened.history earlier
    have hv : Opened script limits id v := hu.history later
    refine ⟨?_, hu.kept later, isReleased_perform hv.there, fun hreleased name hunknown => ?_,
      fun op hop => ?_⟩
    · have hall := context_history hopened.there (earlier ++ later)
      rwa [List.foldl_append] at hall
    · exact resolve_of_released hreleased hunknown
    · rw [op.context_perform hv.there, Operation.events_of_not_mem hop]
      rfl
  · intro earlier later other name name' f f' u v hf hf'
    exact (hminted.history earlier).same_iff (hopened.history earlier) hf later hf'

/-- A name that is not declared is looked up in vain and counted; a function that was compiled before
the release is the same one after it, and one that was not is asked for too late. -/
theorem contexts_stay_coherent_released :
    let start := (({} : World).openContext (.ofScript sampleScript {})).2
    let v := [Operation.resolve ⟨0⟩ ['h'], .release ⟨0⟩].foldl Operation.perform
      (start.resolve ⟨0⟩ ['g']).2
    (∃ f f', (start.resolve ⟨0⟩ ['g']).1 = .ok f ∧ (v.resolve ⟨0⟩ ['g']).1 = .ok f' ∧ f.Same f') ∧
      (v.context ⟨0⟩).extractions = 2 ∧ (v.context ⟨0⟩).compiled.length = 1 ∧
      (v.context ⟨0⟩).isReleased = true ∧
      v.resolve ⟨0⟩ ['f'] = (.error (.error (.contextReleased ['f'])), v) := by
  intro start v
  have hbefore : (start.resolve ⟨0⟩ ['g']).1 =
      .ok ⟨⟨⟨⟨0⟩, 1⟩, ⟨['g'], [['a']], ["return a".toList]⟩⟩, ⟨0⟩⟩ := by decide
  have hafter : (v.resolve ⟨0⟩ ['g']).1 =
      .ok ⟨⟨⟨⟨0⟩, 1⟩, ⟨['g'], [['a']], ["return a".toList]⟩⟩, ⟨0⟩⟩ := by decide
  obtain ⟨-, hkept, hsame⟩ := contexts_stay_coherent [] sampleScript {}
  have hreleased : (v.context ⟨0⟩).isReleased = true := by decide
  have hlate := (hkept [.resolve ⟨0⟩ ['g'], .resolve ⟨0⟩ ['h'], .release ⟨0⟩] []).2.2.2.1
  exact ⟨⟨_, _, hbefore, hafter, (hsame [] _ _ _ _ _ _ hbefore hafter).1.mpr ⟨rfl, rfl⟩⟩,
    by decide, by decide, hreleased, hlate hreleased ['f'] (by decide)⟩

end World

end Scriptlet
