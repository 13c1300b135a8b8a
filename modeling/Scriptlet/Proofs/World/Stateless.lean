import Scriptlet.Proofs.Routine.Built
import Scriptlet.Proofs.Run.Renaming

/-!
Evaluation is stateless up to the identity of arrays. A function that is evaluated in a context of
its own sees of the heap only what can be reached from its arguments, and of that only what is held
where: whatever else the heap holds, however many arrays were made before and whatever other contexts
are open has no part in the outcome.
-/

namespace Scriptlet

open Renaming

/-- What one evaluation ends with and what another does, by pairs of arrays that go on from the given
ones: the same error, or values of which one stands for the other. The heaps agree on all the pairs,
so values of which one stands for the other look the same. -/
def World.EndAlike (ρ : Renaming) (p q : Except Halt Value × World) : Prop :=
  ∃ σ, ρ.Extends σ ∧ Alike σ.Same p.1 q.1 ∧ σ.Relates p.2.heap q.2.heap ∧
    ∀ v w, σ.Same v w → p.2.heap.contents? v = q.2.heap.contents? w ∧
      p.2.heap.render? v = q.2.heap.render? w

def World.goOn {α β : Type} (next : α → World → Except Halt β × World) :
    Except Halt α × World → Except Halt β × World
  | (.ok a, w) => next a w
  | (.error halt, w) => (.error halt, w)

/-- Looks a function of a script up in a context that is opened for it, and calls it. -/
def World.callAnew (w : World) (script name : Text) (limits : Limits) (args : List Value) :
    Except Halt Value × World :=
  let (id, w) := w.openContext (.ofScript script limits)
  goOn (fun f w => w.call f args) (w.resolve id name)

def Routine.evalAnew (w : World) (script name : Text) (limits : Limits) (args : List Value) :
    Except Halt Value × World :=
  World.goOn (fun r w => r.eval w args) (ofScript w script name limits)

variable {ρ : Renaming} {w w' : World} {script name : Text} {limits : Limits}
variable {args args' : List Value}

theorem World.EndAlike.of_relates {σ : Renaming} {p q : Except Halt Value × World}
    (hσ : ρ.Extends σ) (houtcome : Alike σ.Same p.1 q.1) (hheaps : σ.Relates p.2.heap q.2.heap) :
    EndAlike ρ p q := by
  refine ⟨σ, hσ, houtcome, hheaps, fun v w hvw => ?_⟩
  have hcontents := hheaps.contents?_eq hvw
  exact ⟨hcontents, congrArg (Option.map Contents.render) hcontents⟩

/-- Calls of one function from heaps that agree, in two contexts of one script that still have it. -/
theorem Function.alike_call (f : Function) {h g : Heap} (hρ : ρ.Relates h g)
    (hargs : ρ.SameEach args args') {c d : Context} (hc : c.Faithful script limits)
    (hd : d.Faithful script limits) (hscript : c.script = some script)
    (htext : d.script = some script) :
    ∃ σ, ρ.Extends σ ∧ Alike σ.Same ((f.call args).outcome ⟨h, c⟩) ((f.call args').outcome ⟨g, d⟩) ∧
      σ.Relates ((f.call args).finish ⟨h, c⟩).heap ((f.call args').finish ⟨g, d⟩).heap := by
  have hsame := (Run.outcome_call_eq hc hd htext f args h).resolve_right <| by
    rintro ⟨halt, ⟨hreleased, -⟩, -⟩
    rw [hscript] at hreleased
    cases hreleased
  rw [hsame.1, hsame.2]
  have hends : Run.EndsAlike ρ Same (f.call args ⟨h, d⟩) (f.call args' ⟨g, d⟩) :=
    (inStep_call f hargs).ends hρ
  unfold Run.outcome Run.finish
  generalize f.call args ⟨h, d⟩ = r, f.call args' ⟨g, d⟩ = r' at hends
  cases hends with
  | value hσ hheaps hvw => exact ⟨_, hσ, .ok hvw, hheaps⟩
  | failure hσ hheaps => exact ⟨_, hσ, .error _, hheaps⟩

/-! ### Calls -/

namespace World

theorem goOn_of_ok {α β : Type} {next : α → World → Except Halt β × World} {a : α}
    {found : Except Halt α × World} (h : found.1 = .ok a) : goOn next found = next a found.2 := by
  obtain ⟨_, _⟩ := found
  cases h
  rfl

theorem goOn_of_error {α β : Type} {next : α → World → Except Halt β × World} {halt : Halt}
    {found : Except Halt α × World} (h : found.1 = .error halt) :
    goOn next found = (.error halt, found.2) := by
  obtain ⟨_, _⟩ := found
  cases h
  rfl

theorem callAnew_of_error (w : World) (args : List Value) {reason : DeclarationError}
    (h : Function.extract script name = .error reason) :
    (w.callAnew script name limits args).1 = .error (.error (.declaration reason)) ∧
      (w.callAnew script name limits args).2.heap = w.heap := by
  let opened := w.openContext (.ofScript script limits)
  have hnone := resolve_of_extract_error (opened_openContext w script limits)
    (script_openContext w script limits) h
  have hmade : w.callAnew script name limits args =
      (.error (.error (.declaration reason)), (opened.2.resolve opened.1 name).2) :=
    goOn_of_error hnone
  rw [hmade]
  exact ⟨rfl, rfl⟩

/-- A call anew is a call in some context that has the text and knows nothing else. -/
theorem callAnew_of_ok (w : World) (args : List Value) {f : Function}
    (h : Function.extract script name = .ok f) :
    ∃ c : Context, c.Faithful script limits ∧ c.script = some script ∧
      (w.callAnew script name limits args).1 = (f.call args).outcome ⟨w.heap, c⟩ ∧
      (w.callAnew script name limits args).2.heap = ((f.call args).finish ⟨w.heap, c⟩).heap := by
  let opened := w.openContext (.ofScript script limits)
  have hopened : Opened script limits opened.1 opened.2 := opened_openContext w script limits
  have hscript : (opened.2.context opened.1).script = some script :=
    script_openContext w script limits
  obtain ⟨g, rfl, hg⟩ := resolve_of_extract hopened hscript h
  have hcall : w.callAnew script name limits args =
      (opened.2.resolve opened.1 name).2.call ⟨g, opened.1⟩ args := goOn_of_ok hg
  have hstate := state_resolve hopened.there name
  refine ⟨_, hopened.faithful.resolve name, (Context.script_resolve _ name).trans hscript, ?_, ?_⟩
  · rw [hcall, call, run_fst, hstate]
    rfl
  · rw [hcall, call, heap_run, hstate]
    rfl

/-- Calls of a function of a script from heaps that agree, each in a context of its own. -/
theorem callAnew_alike (hρ : ρ.Relates w.heap w'.heap) (hargs : ρ.SameEach args args') :
    EndAlike ρ (w.callAnew script name limits args) (w'.callAnew script name limits args') := by
  cases h : Function.extract script name with
  | error reason =>
    obtain ⟨houtcome, hheap⟩ := callAnew_of_error w args h
    obtain ⟨houtcome', hheap'⟩ := callAnew_of_error w' args' h
    refine .of_relates ρ.extends_refl ?_ ?_
    · rw [houtcome, houtcome']
      exact .error _
    · rw [hheap, hheap']
      exact hρ
  | ok f =>
    obtain ⟨c, hc, hscript, houtcome, hheap⟩ := callAnew_of_ok w args h
    obtain ⟨d, hd, htext, houtcome', hheap'⟩ := callAnew_of_ok w' args' h
    obtain ⟨σ, hσ, halike, hheaps⟩ := f.alike_call hρ hargs hc hd hscript htext
    refine .of_relates hσ ?_ ?_
    · rw [houtcome, houtcome']
      exact halike
    · rw [hheap, hheap']
      exact hheaps

end World

/-! ### Routines -/

namespace Routine

/-- Runs of one function by two routines, whose contexts have the text, on heaps that agree. -/
theorem Built.eval_alike {f : Function} {r r' : Routine} (h : Built script limits f r w)
    (h' : Built script limits f r' w') (hscript : (w.context r.context).script = some script)
    (htext : (w'.context r'.context).script = some script) (hρ : ρ.Relates w.heap w'.heap)
    (hargs : ρ.SameEach args args') :
    World.EndAlike ρ (r.eval w args) (r'.eval w' args') := by
  obtain ⟨τ, hτ, hcopied, hcopies⟩ := hρ.copyArrays hargs
  obtain ⟨σ, hσ, halike, hheaps⟩ := f.alike_call hcopied hcopies h.opened.faithful
    h'.opened.faithful hscript htext
  refine .of_relates (hτ.trans hσ) ?_ ?_
  · rw [h.outcome_eval, h'.outcome_eval]
    exact halike
  · rw [h.heap_eval_eq, h'.heap_eval_eq]
    exact hheaps

/-- Runs of a function of a script on heaps that agree, by routines that are made of it. -/
theorem evalAnew_alike (hρ : ρ.Relates w.heap w'.heap) (hargs : ρ.SameEach args args') :
    World.EndAlike ρ (evalAnew w script name limits args) (evalAnew w' script name limits args') := by
  unfold evalAnew
  cases h : Function.extract script name with
  | error reason =>
    obtain ⟨u, hmade, hheap⟩ := ofScript_of_error w limits h
    obtain ⟨u', hmade', hheap'⟩ := ofScript_of_error w' limits h
    rw [hmade, hmade']
    refine .of_relates ρ.extends_refl (.error _) ?_
    show ρ.Relates u.heap u'.heap
    rw [hheap, hheap']
    exact hρ
  | ok f =>
    obtain ⟨r, u, hmade, hheap, hbuilt, hscript⟩ := ofScript_of_extract w limits h
    obtain ⟨r', u', hmade', hheap', hbuilt', htext⟩ := ofScript_of_extract w' limits h
    rw [hmade, hmade']
    refine hbuilt.eval_alike hbuilt' hscript htext ?_ hargs
    rw [hheap, hheap']
    exact hρ

end Routine

/-- Evaluation is stateless up to the identity of arrays. Whatever two worlds hold, if the arguments
are the same under a renaming on which the heaps agree, then a function of a script that is evaluated
in contexts of its own, by a call or by a routine, ends the same way in both: with the same error, or
with values that are the same under a renaming with more pairs. The heaps agree on those pairs in the
end, so that all that is the same looks the same. -/
theorem World.evaluation_up_to_renaming (script name : Text) (limits : Limits) (w w' : World)
    (ρ : Renaming) (hρ : ρ.Relates w.heap w'.heap) (args args' : List Value)
    (hargs : ρ.SameEach args args') :
    EndAlike ρ (w.callAnew script name limits args) (w'.callAnew script name limits args') ∧
      EndAlike ρ (Routine.evalAnew w script name limits args)
        (Routine.evalAnew w' script name limits args') :=
  ⟨callAnew_alike hρ hargs, Routine.evalAnew_alike hρ hargs⟩

/-- Two pairs that cross: what was made first in one heap was made second in the other. -/
def Renaming.crossing : Renaming where
  Pairs a b := a = ⟨0⟩ ∧ b = ⟨2⟩ ∨ a = ⟨1⟩ ∧ b = ⟨1⟩
  oneToOne := by
    rintro a b c d (⟨rfl, rfl⟩ | ⟨rfl, rfl⟩) (⟨rfl, rfl⟩ | ⟨rfl, rfl⟩) <;> decide

/-- The second argument is nested in the first, and the script writes to the one and turns the other
round. In the second world the arrays were made in another order, after one that has no partner. -/
theorem World.evaluation_up_to_renaming_crossing :
    let script := "function f(a,b){b[0]=2;return a.reverse()}".toList
    let w : World := ⟨⟨#[[.array ⟨1⟩], [.integer 1]]⟩, #[]⟩
    let w' : World := ⟨⟨#[[.text ['x']], [.integer 1], [.array ⟨1⟩]]⟩, #[.empty]⟩
    let p := w.callAnew script ['f'] {} [.array ⟨0⟩, .array ⟨1⟩]
    let q := w'.callAnew script ['f'] {} [.array ⟨2⟩, .array ⟨1⟩]
    crossing.Relates w.heap w'.heap ∧
      crossing.SameEach [.array ⟨0⟩, .array ⟨1⟩] [.array ⟨2⟩, .array ⟨1⟩] ∧
      p.1 = .ok (.array ⟨2⟩) ∧ q.1 = .ok (.array ⟨3⟩) ∧ EndAlike crossing p q ∧
      q.2.heap.render? (.array ⟨3⟩) = some "[[2]]".toList := by
  intro script w w' p q
  have hrelates : crossing.Relates w.heap w'.heap := by
    constructor
    · rintro a b (⟨rfl, rfl⟩ | ⟨rfl, rfl⟩) <;> decide
    · rintro a b (⟨rfl, rfl⟩ | ⟨rfl, rfl⟩)
      · exact .cons (.array (.inr ⟨rfl, rfl⟩)) .nil
      · exact .cons (.scalar rfl) .nil
  have hargs : crossing.SameEach [.array ⟨0⟩, .array ⟨1⟩] [.array ⟨2⟩, .array ⟨1⟩] :=
    .cons (.array (.inl ⟨rfl, rfl⟩)) (.cons (.array (.inr ⟨rfl, rfl⟩)) .nil)
  have halike := (evaluation_up_to_renaming script ['f'] {} w w' crossing hrelates _ _ hargs).1
  exact ⟨hrelates, hargs, by decide +kernel, by decide +kernel, halike, by decide +kernel⟩

end Scriptlet
