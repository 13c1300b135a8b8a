import Scriptlet.Proofs.Each
import Scriptlet.Proofs.Run.Lookups
import Scriptlet.Proofs.Run.Outcome

/-!
What carries over from the calls that a script makes to all of its runs. A run has to do with its
context in one place only, where a call looks up a name; the rest works on the heap alone. So a
relation between runs that holds of whatever works on the heap, and goes through when runs follow
one another, holds of every expression, statement and body as soon as it holds of the calls by name
that are written there. Along with two runs such a relation takes in the names that are written in
their text and the names that the first of them looks up.
-/

namespace Scriptlet

def Error.isRelease : Error → Bool
  | .contextReleased _ => true
  | _ => false

namespace Run

variable {α β : Type}

/-- A run that has to do with the heap alone: it neither looks at the context nor changes it, and it
does not fail for lack of a script text. -/
def Plain (x : Run α) : Prop :=
  ∀ h : Heap, ∃ (r : Except Error α) (h' : Heap),
    (∀ reason, r = .error reason → reason.isRelease = false) ∧
      ∀ c : Context, x ⟨h, c⟩ = ofExcept r ⟨h', c⟩

namespace Plain

theorem ofExcept {r : Except Error α}
    (hr : ∀ reason, r = .error reason → reason.isRelease = false) : (ofExcept r).Plain :=
  fun h => ⟨r, h, hr, fun _ => rfl⟩

theorem pure (a : α) : Plain (pure a) :=
  fun h => ⟨.ok a, h, by simp, fun _ => rfl⟩

theorem fail {reason : Error} (h : reason.isRelease = false) : (Run.fail reason : Run α).Plain := by
  intro heap
  refine ⟨.error reason, heap, ?_, fun _ => rfl⟩
  rintro _ ⟨⟩
  exact h

theorem ofValue (r : Except ValueError α) : (Run.ofValue r).Plain := by
  intro h
  refine ⟨r.mapError .value, h, ?_, ?_⟩
  · intro reason hreason
    cases r <;> cases hreason
    rfl
  · intro c
    cases r <;> rfl

theorem reading (f : Heap → Except ValueError α) : (Run.reading f).Plain :=
  fun h => ofValue (f h) h

theorem changing (f : Heap → α × Heap) : (Run.changing f).Plain :=
  fun h => ⟨.ok (f h).1, (f h).2, by simp, fun _ => rfl⟩

theorem bind {x : Run α} {f : α → Run β} (hx : x.Plain) (hf : ∀ a, (f a).Plain) :
    (x >>= f).Plain := by
  intro h
  obtain ⟨r, h', hr, hrun⟩ := hx h
  cases r with
  | error reason =>
    refine ⟨.error reason, h', ?_, fun c => bind_of_error (hrun c)⟩
    rintro _ ⟨⟩
    exact hr reason rfl
  | ok a =>
    obtain ⟨r, h'', hnext, hthen⟩ := hf a h'
    exact ⟨r, h'', hnext, fun c => (bind_of_ok (hrun c)).trans (hthen c)⟩

end Plain

end Run

theorem Frame.isRelease_fetch {frame : Frame} {x : Text} {reason : Error}
    (h : frame.fetch x = .error reason) : reason.isRelease = false := by
  unfold fetch at h
  split at h <;> cases h
  rfl

theorem Argument.isRelease_eval {frame : Frame} {argument : Argument} {reason : Error}
    (h : argument.eval frame = .error reason) : reason.isRelease = false := by
  cases argument with
  | integer n => cases h
  | name x => exact Frame.isRelease_fetch h

theorem Argument.isRelease_mapM {frame : Frame} {arguments : List Argument} {reason : Error}
    (h : arguments.mapM (Argument.eval frame) = .error reason) : reason.isRelease = false := by
  obtain ⟨_, _, _, _, _, _, hbad⟩ := mapM_eq_error_iff.mp h
  exact isRelease_eval hbad

theorem Frame.isRelease_bindParams {function : Text} {frame : Frame} {params : List Text}
    {args : List Value} {reason : Error}
    (h : bindParams function frame params args = .error reason) : reason.isRelease = false := by
  induction params generalizing frame args with
  | nil => cases h
  | cons param params ih =>
    cases args with
    | nil =>
      cases h
      rfl
    | cons arg args => exact ih h

namespace Run

/-- A relation between two runs, the names that are written in their text and the names that the
first looks up, which goes from the parts of runs to the whole. -/
structure Congruence where
  Rel : {α : Type} → Run α → Run α → (written : List Text) → Lookups → Prop
  plain : ∀ {α : Type} {x : Run α}, x.Plain → Rel x x [] .none
  /-- Whatever is written after a failure is not reached. -/
  fail : ∀ {α : Type} {reason : Error} (written : List Text), reason.isRelease = false →
    Rel (Run.fail reason : Run α) (Run.fail reason) written .none
  limits : Rel Run.limits Run.limits [] .none
  bind : ∀ {α β : Type} {x y : Run α} {f g : α → Run β} {written more : List Text} {names : Lookups}
    {next : α → Lookups}, Rel x y written names → (∀ a, Rel (f a) (g a) more (next a)) →
    Rel (x >>= f) (y >>= g) (written ++ more) (names.andThen x next)

namespace Congruence

variable {C : Congruence} {α β : Type} {x y : Run α} {f g : α → Run β} {written : List Text}
variable {names : Lookups} {next : α → Lookups}

theorem before (hx : x.Plain) (hf : ∀ a, C.Rel (f a) (g a) written (next a)) :
    C.Rel (x >>= f) (x >>= g) written (.after x next) :=
  C.bind (C.plain hx) hf

theorem afterLimits {f g : Limits → Run β} {next : Limits → Lookups}
    (hf : ∀ l, C.Rel (f l) (g l) written (next l)) :
    C.Rel (Run.limits >>= f) (Run.limits >>= g) written (.after Run.limits next) :=
  C.bind C.limits hf

theorem andThen (hx : C.Rel x y written names) (hf : ∀ a, (f a).Plain) :
    C.Rel (x >>= f) (y >>= f) written names := by
  have h : C.Rel (x >>= f) (y >>= f) (written ++ []) (names.andThen x fun _ => .none) :=
    C.bind hx fun a => C.plain (hf a)
  rwa [List.append_nil, Lookups.andThen_none] at h

end Congruence

/-- A call by a name that is found is a call of the function, in the context after the lookup. -/
theorem callNamed_of_ok {invoke : Invocation} {name : Text} {g : Function} {s : State}
    (h : (s.context.resolve name).1 = .ok g) (args : Except Error (List Value)) :
    callNamed invoke name args s =
      (ofExcept args >>= fun vs => invoke g vs)
        { s with context := (s.context.resolve name).2 } := by
  refine bind_of_ok ?_
  rw [resolve_eq, h]
  rfl

theorem callNamed_of_error {invoke : Invocation} {name : Text} {reason : Error} {s : State}
    (h : (s.context.resolve name).1 = .error reason) (args : Except Error (List Value)) :
    callNamed invoke name args s =
      .error (.error reason) { s with context := (s.context.resolve name).2 } := by
  refine bind_of_error ?_
  rw [resolve_eq, h]
  rfl

def Congruence.Calls (C : Congruence) (invoke invoke' : Invocation) (within : CallLookups)
    (written : List Text) : Prop :=
  ∀ name ∈ written, ∀ args : Except Error (List Value),
    (∀ reason, args = .error reason → reason.isRelease = false) →
    C.Rel (callNamed invoke name args) (callNamed invoke' name args) [name]
      (.ofCall within name args)

end Run

section Calls

open Run

variable {C : Congruence} {invoke invoke' : Invocation} {within : CallLookups} {frame : Frame}

namespace Expr

theorem plain_fetch (x : Text) : (Run.ofExcept (frame.fetch x)).Plain :=
  .ofExcept fun _ => Frame.isRelease_fetch

/-- What an expression does within its budget decides; without any it does nothing. -/
theorem related_guarded {x y : Run Value} {written : List Text} {names : Lookups} {budget : Int}
    (hx : C.Rel x y written names) :
    C.Rel (if budget < 0 then Run.fail .nestingLimit else x)
      (if budget < 0 then Run.fail .nestingLimit else y) written
      (if budget < 0 then .none else names) := by
  split
  · exact C.fail written rfl
  · exact hx

/-- Expressions by the shape of the tree: calls are related by assumption, and all else that an
expression does on its own has to do with the heap alone. -/
theorem related_eval (e : Expr) (hcalls : C.Calls invoke invoke' within e.callees) (budget : Int) :
    C.Rel (e.eval invoke frame budget) (e.eval invoke' frame budget) e.callees
      (e.lookups invoke within frame budget) := by
  induction e generalizing budget with
  | integer n =>
    rw [eval, eval, lookups]
    exact related_guarded (C.plain (.pure _))
  | name x =>
    rw [eval, eval, lookups]
    exact related_guarded (C.plain (plain_fetch x))
  | split r =>
    rw [eval, eval, lookups]
    refine related_guarded (C.plain ((plain_fetch r).bind fun v => ?_))
    exact (Plain.ofValue v.asText).bind fun _ => .changing _
  | join r =>
    rw [eval, eval, lookups]
    refine related_guarded (C.plain ((plain_fetch r).bind fun v => ?_))
    exact (Plain.ofValue v.asArray).bind fun _ => (Plain.reading _).bind fun _ => .pure _
  | length r =>
    rw [eval, eval, lookups]
    refine related_guarded (C.plain ((plain_fetch r).bind fun v => ?_))
    exact (Plain.reading _).bind fun _ => .pure _
  | reverse r =>
    rw [eval, eval, lookups]
    refine related_guarded (C.plain ((plain_fetch r).bind fun v => ?_))
    exact (Plain.reading _).bind fun _ => .changing _
  | slice r start ih =>
    rw [eval, eval, lookups]
    refine related_guarded (Congruence.before (plain_fetch r) fun v => ?_)
    refine Congruence.andThen (ih hcalls (budget - 1)) fun w => ?_
    exact (Plain.ofValue w.asInteger).bind fun _ => (Plain.reading _).bind fun _ => .changing _
  | index r position ih =>
    rw [eval, eval, lookups]
    refine related_guarded (Congruence.before (plain_fetch r) fun v => ?_)
    refine Congruence.before (.ofValue v.asArray) fun a => ?_
    refine Congruence.andThen (ih hcalls (budget - 1)) fun w => ?_
    exact (Plain.ofValue w.asInteger).bind fun _ => .reading _
  | remainder left right ihl ihr =>
    rw [eval, eval, lookups]
    have hleft := ihl (fun name hname => hcalls name (List.mem_append_left _ hname)) budget
    have hright := ihr (fun name hname => hcalls name (List.mem_append_right _ hname)) budget
    refine related_guarded (C.bind hleft fun v => ?_)
    refine Congruence.before (.ofValue v.asInteger) fun m => ?_
    refine Congruence.andThen hright fun w => ?_
    exact (Plain.ofValue w.asInteger).bind fun _ => (Plain.ofValue _).bind fun _ => .pure _
  | call f arguments =>
    rw [eval, eval, lookups]
    refine related_guarded ?_
    exact hcalls f (List.mem_singleton_self f) _ fun _ => Argument.isRelease_mapM
  | malformed reason =>
    rw [eval, eval, lookups]
    exact related_guarded (C.fail [] rfl)

end Expr

namespace Statement

theorem related_exec (statement : Statement)
    (hcalls : C.Calls invoke invoke' within statement.callees) (budget : Int) :
    C.Rel (statement.exec invoke frame budget) (statement.exec invoke' frame budget)
      statement.callees (statement.lookups invoke within frame budget) := by
  cases statement with
  | assign target value =>
    rw [exec, exec, lookups]
    exact Congruence.andThen (Expr.related_eval _ hcalls budget) fun v => .pure _
  | assignIndex target index value =>
    rw [exec, exec, lookups]
    have hindex : C.Calls invoke invoke' within (Expr.ofText index).callees :=
      fun name hname => hcalls name (List.mem_append_left _ hname)
    have hvalue : C.Calls invoke invoke' within (Expr.ofText value).callees :=
      fun name hname => hcalls name (List.mem_append_right _ hname)
    refine C.bind (Expr.related_eval _ hindex budget) fun v => ?_
    refine Congruence.before (.ofValue v.asInteger) fun n => ?_
    refine Congruence.andThen (Expr.related_eval _ hvalue budget) fun w => ?_
    refine (Expr.plain_fetch target).bind fun u => (Plain.ofValue u.asArray).bind fun a => ?_
    exact (Plain.reading _).bind fun _ => (Plain.changing _).bind fun _ => .pure _
  | result value =>
    rw [exec, exec, lookups]
    exact Congruence.andThen (Expr.related_eval _ hcalls budget) fun v => .pure _

theorem related_execText (text : Text)
    (hcalls : C.Calls invoke invoke' within (calleesOfText text)) (budget : Int) :
    C.Rel (execText invoke frame budget text) (execText invoke' frame budget text)
      (calleesOfText text) (lookupsOfText invoke within frame budget text) := by
  unfold execText lookupsOfText
  unfold calleesOfText at hcalls ⊢
  revert hcalls
  cases ofText text with
  | ok statement => exact fun hcalls => related_exec statement hcalls budget
  | error reason => exact fun _ => C.fail [] rfl

end Statement

namespace Function

theorem related_runStatements (statements : List Text)
    (hcalls : C.Calls invoke invoke' within (statements.flatMap Statement.calleesOfText))
    (budget : Int) (last : Option Value) :
    C.Rel (runStatements invoke budget frame last statements)
      (runStatements invoke' budget frame last statements)
      (statements.flatMap Statement.calleesOfText)
      (lookupsOfStatements invoke within budget frame statements) := by
  induction statements generalizing frame last with
  | nil => exact C.plain (.pure last)
  | cons text rest ih =>
    rw [List.flatMap_cons] at hcalls ⊢
    have htext : C.Calls invoke invoke' within (Statement.calleesOfText text) :=
      fun name hname => hcalls name (List.mem_append_left _ hname)
    refine C.bind (Statement.related_execText text htext budget) fun after => ?_
    exact ih (fun name hname => hcalls name (List.mem_append_right _ hname)) (some after.1)

/-- The body of a function is related to itself when the calls that are written in it are. -/
theorem related_body (f : Function) (hcalls : C.Calls invoke invoke' within f.callees)
    (args : List Value) :
    C.Rel (f.body invoke args) (f.body invoke' args) f.callees
      (f.lookupsOfBody invoke within args) := by
  have hframe : (Run.ofExcept (Frame.ofCall f args)).Plain :=
    .ofExcept fun _ => Frame.isRelease_bindParams
  refine Congruence.before hframe fun frame => Congruence.afterLimits fun limits => ?_
  refine Congruence.andThen (related_runStatements f.statements hcalls _ none) fun last => ?_
  cases last with
  | some v => exact .pure v
  | none => exact .fail rfl

end Function

end Calls

/-! ### Relations that hold of every call -/

namespace Run

/-- A congruence that any lookup goes through, whatever is written. It holds of all runs. -/
structure Congruence.Unconditional (C : Congruence) : Prop where
  resolve : ∀ name, C.Rel (Run.resolve name) (Run.resolve name) [name] (fun _ => [name])
  tooDeep : C.Rel (throw .tooDeep : Run Value) (throw .tooDeep) [] .none
  forget : ∀ {x y : Run Value} {written : List Text} {names : Lookups},
    C.Rel x y written names → C.Rel x y [] names

variable {C : Congruence}

/-- Calls by name are related once calls are. -/
theorem Congruence.Unconditional.calls (hC : C.Unconditional) {invoke : Invocation}
    {within : CallLookups} {written : List Text}
    (hinvoke : ∀ f args, C.Rel (invoke f args) (invoke f args) [] (within f args)) :
    C.Calls invoke invoke within written := by
  intro name _ args hargs
  refine C.bind (hC.resolve name) fun callee => ?_
  exact Congruence.before (.ofExcept hargs) fun args => hinvoke callee args

end Run

section Unconditional

open Run

variable {C : Congruence} (hC : C.Unconditional)
include hC

namespace Function

/-- Calls nested in a call are calls to a smaller depth: the induction is on it. -/
theorem related_invoke (depth : Nat) (f : Function) (args : List Value) :
    C.Rel (invoke depth f args) (invoke depth f args) [] (lookupsOfInvoke depth f args) := by
  induction depth generalizing f args with
  | zero => exact hC.tooDeep
  | succ depth ih =>
    rw [invoke_succ]
    exact hC.forget (related_body f (hC.calls ih) args)

theorem related_call (f : Function) (args : List Value) :
    C.Rel (f.call args) (f.call args) [] (f.lookups args) :=
  Congruence.afterLimits fun limits => related_invoke hC limits.callDepth f args

end Function

theorem Run.related_statement (frame : Frame) (budget : Int) (t : Text) :
    C.Rel (statement frame budget t) (statement frame budget t) (Statement.calleesOfText t)
      (lookupsOfStatement frame budget t) :=
  Statement.related_execText t (hC.calls (Function.related_call hC)) budget

theorem Run.related_expression (frame : Frame) (budget : Int) (t : Text) :
    C.Rel (expression frame budget t) (expression frame budget t) (Expr.ofText t).callees
      (lookupsOfExpression frame budget t) :=
  Expr.related_eval (Expr.ofText t) (hC.calls (Function.related_call hC)) budget

end Unconditional

end Scriptlet
