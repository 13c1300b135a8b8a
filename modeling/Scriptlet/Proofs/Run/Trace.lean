import Scriptlet.Proofs.Run.Outcome
import Scriptlet.Statement

/-!
The states that a run goes through, and the variables in sight then. Every expression adds the state
that it ends in, wherever it stands, and so does every statement and every call, the calls inside other
calls included. A part that a failing run does not get to adds nothing. An array is made by an
expression, and its making is the last thing that the expression does, so no array is older than the
first state that has it. A moment is a state together with the frame of the innermost call at that time;
the frames of the calls around it wait unchanged, and are among the moments with an earlier state.
-/

namespace Scriptlet

/-- The states that are gone through from a given one on. -/
abbrev Trace := State → List State

namespace Run

variable {α : Type}

def finish (x : Run α) (s : State) : State :=
  match x s with
  | .ok _ t => t
  | .error _ t => t

/-- The states of what comes after a run, if the run has a value. -/
def onward (x : Run α) (next : α → Trace) : Trace := fun s =>
  match x s with
  | .ok a t => next a t
  | .error _ _ => []

@[simp] theorem onward_nil (x : Run α) (s : State) : x.onward (fun _ _ => []) s = [] := by
  unfold onward
  cases x s <;> rfl

end Run

abbrev CallTrace := Function → List Value → Trace

def Expr.trace (invoke : Invocation) (within : CallTrace) (frame : Frame) (e : Expr)
    (budget : Int) : Trace := fun s =>
  let parts :=
    if budget < 0 then []
    else match e with
    | .slice r start =>
      (Run.ofExcept (frame.fetch r)).onward
        (fun _ => start.trace invoke within frame (budget - 1)) s
    | .index r position =>
      (Run.ofExcept (frame.fetch r)).onward (fun v =>
        (Run.ofValue v.asArray).onward fun _ =>
          position.trace invoke within frame (budget - 1)) s
    | .remainder left right =>
      left.trace invoke within frame budget s ++
        (left.eval invoke frame budget).onward (fun v =>
          (Run.ofValue v.asInteger).onward fun _ =>
            right.trace invoke within frame budget) s
    | .call f arguments =>
      (Run.resolve f).onward (fun callee =>
        (Run.ofExcept (arguments.mapM (Argument.eval frame))).onward fun args =>
          within callee args) s
    | .integer _ | .name _ | .split _ | .join _ | .length _ | .reverse _ | .malformed _ => []
  parts ++ [(e.eval invoke frame budget).finish s]

namespace Statement

def trace (invoke : Invocation) (within : CallTrace) (frame : Frame) (budget : Int)
    (statement : Statement) : Trace := fun s =>
  let expression (t : Text) : Trace := (Expr.ofText t).trace invoke within frame budget
  let parts :=
    match statement with
    | .assign _ value => expression value s
    | .assignIndex _ index value =>
      expression index s ++
        ((Expr.ofText index).eval invoke frame budget).onward (fun v =>
          (Run.ofValue v.asInteger).onward fun _ => expression value) s
    | .result value => expression value s
  parts ++ [(statement.exec invoke frame budget).finish s]

def traceText (invoke : Invocation) (within : CallTrace) (frame : Frame) (budget : Int)
    (t : Text) : Trace :=
  match ofText t with
  | .ok statement => statement.trace invoke within frame budget
  | .error _ => fun _ => []

end Statement

namespace Function

def traceStatements (invoke : Invocation) (within : CallTrace) (budget : Int) (frame : Frame) :
    List Text → Trace
  | [] => fun _ => []
  | t :: rest => fun s =>
    Statement.traceText invoke within frame budget t s ++
      (Statement.execText invoke frame budget t).onward
        (fun after => traceStatements invoke within budget after.2 rest) s

/-- The states that a call goes through, with calls nested at most `depth` deep from here on. -/
def traceInvoke : (depth : Nat) → CallTrace
  | 0 => fun _ _ _ => []
  | depth + 1 => fun f args s =>
    (Run.ofExcept (Frame.ofCall f args)).onward (fun frame =>
      Run.limits.onward fun limits =>
        traceStatements (fun g vs => invoke depth g vs) (traceInvoke depth) limits.nestingBudget
          frame f.statements) s
      ++ [(f.invoke (depth + 1) args).finish s]

def trace : CallTrace := fun f args =>
  Run.limits.onward fun limits => traceInvoke limits.callDepth f args

end Function

def Run.traceStatement (frame : Frame) (budget : Int) (t : Text) : Trace :=
  Statement.traceText Function.call Function.trace frame budget t

def Run.traceExpression (frame : Frame) (budget : Int) (t : Text) : Trace :=
  (Expr.ofText t).trace Function.call Function.trace frame budget

/-! ### Moments -/

/-- The moments that are gone through from a state on. -/
abbrev Moments := State → List Scope

def Run.followedBy {α : Type} (x : Run α) (next : α → Moments) : Moments := fun s =>
  match x s with
  | .ok a t => next a t
  | .error _ _ => []

@[simp] theorem Run.followedBy_nil {α : Type} (x : Run α) (s : State) :
    x.followedBy (fun _ _ => []) s = [] := by
  unfold followedBy
  cases x s <;> rfl

abbrev CallMoments := Function → List Value → Moments

def Expr.moments (invoke : Invocation) (within : CallMoments) (frame : Frame) (e : Expr)
    (budget : Int) : Moments := fun s =>
  let parts :=
    if budget < 0 then []
    else match e with
    | .slice r start =>
      (Run.ofExcept (frame.fetch r)).followedBy
        (fun _ => start.moments invoke within frame (budget - 1)) s
    | .index r position =>
      (Run.ofExcept (frame.fetch r)).followedBy (fun v =>
        (Run.ofValue v.asArray).followedBy fun _ =>
          position.moments invoke within frame (budget - 1)) s
    | .remainder left right =>
      left.moments invoke within frame budget s ++
        (left.eval invoke frame budget).followedBy (fun v =>
          (Run.ofValue v.asInteger).followedBy fun _ =>
            right.moments invoke within frame budget) s
    | .call f arguments =>
      (Run.resolve f).followedBy (fun callee =>
        (Run.ofExcept (arguments.mapM (Argument.eval frame))).followedBy fun args =>
          within callee args) s
    | .integer _ | .name _ | .split _ | .join _ | .length _ | .reverse _ | .malformed _ => []
  parts ++ [⟨(e.eval invoke frame budget).finish s, frame⟩]

namespace Statement

/-- The moment after a statement: its target is bound if it has not failed. -/
def momentAfter (frame : Frame) (x : Run (Value × Frame)) (s : State) : Scope :=
  match x s with
  | .ok (_, after) t => ⟨t, after⟩
  | .error _ t => ⟨t, frame⟩

def moments (invoke : Invocation) (within : CallMoments) (frame : Frame) (budget : Int)
    (statement : Statement) : Moments := fun s =>
  let expression (t : Text) : Moments := (Expr.ofText t).moments invoke within frame budget
  let parts :=
    match statement with
    | .assign _ value => expression value s
    | .assignIndex _ index value =>
      expression index s ++
        ((Expr.ofText index).eval invoke frame budget).followedBy (fun v =>
          (Run.ofValue v.asInteger).followedBy fun _ => expression value) s
    | .result value => expression value s
  parts ++ [momentAfter frame (statement.exec invoke frame budget) s]

def momentsOfText (invoke : Invocation) (within : CallMoments) (frame : Frame) (budget : Int)
    (t : Text) : Moments :=
  match ofText t with
  | .ok statement => statement.moments invoke within frame budget
  | .error _ => fun _ => []

end Statement

namespace Function

def momentsOfStatements (invoke : Invocation) (within : CallMoments) (budget : Int)
    (frame : Frame) : List Text → Moments
  | [] => fun _ => []
  | t :: rest => fun s =>
    Statement.momentsOfText invoke within frame budget t s ++
      (Statement.execText invoke frame budget t).followedBy
        (fun after => momentsOfStatements invoke within budget after.2 rest) s

def momentsOfInvoke : (depth : Nat) → CallMoments
  | 0 => fun _ _ _ => []
  | depth + 1 => fun f args =>
    (Run.ofExcept (Frame.ofCall f args)).followedBy fun frame s =>
      ⟨s, frame⟩ :: Run.limits.followedBy (fun limits =>
        momentsOfStatements (fun g vs => invoke depth g vs) (momentsOfInvoke depth)
          limits.nestingBudget frame f.statements) s

def moments : CallMoments := fun f args =>
  Run.limits.followedBy fun limits => momentsOfInvoke limits.callDepth f args

end Function

def Run.momentsOfStatement (frame : Frame) (budget : Int) (t : Text) : Moments :=
  Statement.momentsOfText Function.call Function.moments frame budget t

def Run.momentsOfExpression (frame : Frame) (budget : Int) (t : Text) : Moments :=
  (Expr.ofText t).moments Function.call Function.moments frame budget

end Scriptlet
