import Scriptlet.Statement

/-!
The names that a script looks up. Some names are written in a function, and a run looks them up one
after the other as it gets to them, the calls inside other calls included; a part that a failing run
does not get to looks up nothing. What is written is read off the text alone, what is looked up
depends on the run.
-/

namespace Scriptlet

/-! ### Names that are written -/

def Statement.callees : Statement → List Text
  | .assign _ value => (Expr.ofText value).callees
  | .assignIndex _ index value => (Expr.ofText index).callees ++ (Expr.ofText value).callees
  | .result value => (Expr.ofText value).callees

def Statement.calleesOfText (t : Text) : List Text :=
  match ofText t with
  | .ok statement => statement.callees
  | .error _ => []

def Function.callees (f : Function) : List Text :=
  f.statements.flatMap Statement.calleesOfText

/-! ### Names that are looked up -/

/-- The names that are looked up from a state on. -/
abbrev Lookups := State → List Text

namespace Lookups

def none : Lookups := fun _ => []

def andThen {α : Type} (names : Lookups) (x : Run α) (more : α → Lookups) : Lookups := fun s =>
  names s ++ match x s with
    | .ok a t => more a t
    | .error _ _ => []

def after {α : Type} (x : Run α) (more : α → Lookups) : Lookups :=
  none.andThen x more

theorem andThen_none {α : Type} (names : Lookups) (x : Run α) :
    names.andThen x (fun _ => none) = names := by
  funext s
  unfold andThen none
  cases x s <;> simp

end Lookups

abbrev CallLookups := Function → List Value → Lookups

/-- A call by name: the name is looked up before it is known whether there are arguments. -/
def Run.callNamed (invoke : Invocation) (name : Text) (args : Except Error (List Value)) :
    Run Value := do
  let callee ← Run.resolve name
  let args ← Run.ofExcept args
  invoke callee args

def Lookups.ofCall (within : CallLookups) (name : Text) (args : Except Error (List Value)) :
    Lookups :=
  andThen (fun _ => [name]) (Run.resolve name) fun callee =>
    after (Run.ofExcept args) fun args => within callee args

def Expr.lookups (invoke : Invocation) (within : CallLookups) (frame : Frame) (e : Expr)
    (budget : Int) : Lookups :=
  if budget < 0 then .none
  else match e with
  | .slice r start =>
    .after (Run.ofExcept (frame.fetch r)) fun _ => start.lookups invoke within frame (budget - 1)
  | .index r position =>
    .after (Run.ofExcept (frame.fetch r)) fun v =>
      .after (Run.ofValue v.asArray) fun _ => position.lookups invoke within frame (budget - 1)
  | .remainder left right =>
    (left.lookups invoke within frame budget).andThen (left.eval invoke frame budget) fun v =>
      .after (Run.ofValue v.asInteger) fun _ => right.lookups invoke within frame budget
  | .call f arguments => .ofCall within f (arguments.mapM (Argument.eval frame))
  | .integer _ | .name _ | .split _ | .join _ | .length _ | .reverse _ | .malformed _ => .none

namespace Statement

def lookups (invoke : Invocation) (within : CallLookups) (frame : Frame) (budget : Int) :
    Statement → Lookups
  | .assign _ value => (Expr.ofText value).lookups invoke within frame budget
  | .assignIndex _ index value =>
    ((Expr.ofText index).lookups invoke within frame budget).andThen
      ((Expr.ofText index).eval invoke frame budget) fun v =>
        .after (Run.ofValue v.asInteger) fun _ =>
          (Expr.ofText value).lookups invoke within frame budget
  | .result value => (Expr.ofText value).lookups invoke within frame budget

def lookupsOfText (invoke : Invocation) (within : CallLookups) (frame : Frame) (budget : Int)
    (t : Text) : Lookups :=
  match ofText t with
  | .ok statement => statement.lookups invoke within frame budget
  | .error _ => .none

end Statement

namespace Function

def lookupsOfStatements (invoke : Invocation) (within : CallLookups) (budget : Int)
    (frame : Frame) : List Text → Lookups
  | [] => .none
  | t :: rest =>
    (Statement.lookupsOfText invoke within frame budget t).andThen
      (Statement.execText invoke frame budget t) fun after =>
        lookupsOfStatements invoke within budget after.2 rest

/-- What a call does, up to the calls inside it. -/
def body (invoke : Invocation) (f : Function) (args : List Value) : Run Value := do
  let frame ← Run.ofExcept (Frame.ofCall f args)
  let budget := (← Run.limits).nestingBudget
  match ← runStatements invoke budget frame none f.statements with
  | some v => return v
  | none => Run.fail (.declaration (.emptyBody f.name))

/-- The names that a call looks up, those of the calls inside it included as given. -/
def lookupsOfBody (invoke : Invocation) (within : CallLookups) (f : Function) (args : List Value) :
    Lookups :=
  .after (Run.ofExcept (Frame.ofCall f args)) fun frame =>
    .after Run.limits fun limits =>
      lookupsOfStatements invoke within limits.nestingBudget frame f.statements

def lookupsOfInvoke : (depth : Nat) → CallLookups
  | 0 => fun _ _ => .none
  | depth + 1 => lookupsOfBody (invoke depth) (lookupsOfInvoke depth)

def lookups : CallLookups := fun f args =>
  .after Run.limits fun limits => lookupsOfInvoke limits.callDepth f args

theorem invoke_succ (depth : Nat) (f : Function) (args : List Value) :
    f.invoke (depth + 1) args = f.body (invoke depth) args :=
  rfl

end Function

def Run.lookupsOfStatement (frame : Frame) (budget : Int) (t : Text) : Lookups :=
  Statement.lookupsOfText Function.call Function.lookups frame budget t

def Run.lookupsOfExpression (frame : Frame) (budget : Int) (t : Text) : Lookups :=
  (Expr.ofText t).lookups Function.call Function.lookups frame budget

end Scriptlet
