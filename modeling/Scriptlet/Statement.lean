import Scriptlet.Run

/-!
Statements and calls. A statement assigns to a variable, writes one slot of an array, or gives a
result; a leading `var ` means nothing. The forms exclude each other: an assignment has `=` or `[` right
after the lowercase letters it begins with, and `return ` has a space there. A statement that fails
leaves the frame as it was.

A call binds the parameters and runs every statement of the function in order, a `return` like any
other; its value is that of the last one. Calls nest as deep as the call depth allows, which is what
makes them total: a deeper one gives up.
-/

namespace Scriptlet

inductive Statement where
  /-- Written `target=value`. -/
  | assign (target value : Text)
  /-- Written `target[index]=value`. -/
  | assignIndex (target index value : Text)
  /-- Written `return value`. -/
  | result (value : Text)
  deriving DecidableEq, Repr

namespace Statement

/-- The two sides of the first `]=`. -/
def cutWrite? : Text → Option (Text × Text)
  | ']' :: '=' :: rest => some ([], rest)
  | c :: rest => (cutWrite? rest).map fun (left, right) => (c :: left, right)
  | [] => none

/-- Reads an assignment, on one line after the target. An index has a character at least, so a
closing bracket in front belongs to it. -/
def assignment? (t : Text) : Option Statement :=
  match Text.run Char.isLower t with
  | (c :: target, '=' :: value) =>
    if '\n' ∈ value then none else some (.assign (c :: target) value)
  | (c :: target, '[' :: first :: rest) => do
    let (index, value) ← cutWrite? rest
    if '\n' ∈ first :: index ∨ '\n' ∈ value then none
    else return .assignIndex (c :: target) (first :: index) value
  | _ => none

def withoutVar (t : Text) : Text :=
  (Text.after? "var ".toList t).getD t

def ofText (t : Text) : Except ReadError Statement :=
  match assignment? (withoutVar t) with
  | some statement => .ok statement
  | none => match Text.after? "return ".toList (withoutVar t) with
    | some value => .ok (.result value)
    | none => .error (.unknownStatement t)

def exec (invoke : Invocation) (frame : Frame) (budget : Int) : Statement → Run (Value × Frame)
  | .assign target value => do
    let v ← (Expr.ofText value).eval invoke frame budget
    return (v, frame.set target v)
  | .assignIndex target index value => do
    let n ← Run.ofValue (← (Expr.ofText index).eval invoke frame budget).asInteger
    let v ← (Expr.ofText value).eval invoke frame budget
    let a ← Run.ofValue (← Run.ofExcept (frame.fetch target)).asArray
    Run.reading fun h => h.checkWrite a n v
    Run.changing fun h => ((), h.put a n.toNat v)
    return (v, frame)
  | .result value => do
    let v ← (Expr.ofText value).eval invoke frame budget
    return (v, frame)

def execText (invoke : Invocation) (frame : Frame) (budget : Int) (t : Text) :
    Run (Value × Frame) :=
  match ofText t with
  | .ok statement => statement.exec invoke frame budget
  | .error reason => Run.fail (.reading reason)

end Statement

/-! ### Calls -/

namespace Function

/-- Runs statements one after the other. The value is that of the last statement, or the given one
if there is none. -/
def runStatements (invoke : Invocation) (budget : Int) (frame : Frame) (last : Option Value) :
    List Text → Run (Option Value)
  | [] => return last
  | t :: rest => do
    let (v, frame) ← Statement.execText invoke frame budget t
    runStatements invoke budget frame (some v) rest

/-- Calls a function, with calls nested at most `depth` deep from here on. -/
def invoke : (depth : Nat) → Function → List Value → Run Value
  | 0, _, _ => throw .tooDeep
  | depth + 1, f, args => do
    let frame ← Run.ofExcept (Frame.ofCall f args)
    let budget := (← Run.limits).nestingBudget
    match ← runStatements (fun g vs => invoke depth g vs) budget frame none f.statements with
    | some v => return v
    | none => Run.fail (.declaration (.emptyBody f.name))

def call (f : Function) (args : List Value) : Run Value := do
  f.invoke (← Run.limits).callDepth args

end Function

/-- Runs a statement text within the limits of the context of the run, with its own budget for
nested indexes and slices. -/
def Run.statement (frame : Frame) (budget : Int) (t : Text) : Run (Value × Frame) :=
  Statement.execText Function.call frame budget t

/-- Evaluates an expression text within the limits of the context of the run, with its own budget
for nested indexes and slices. -/
def Run.expression (frame : Frame) (budget : Int) (t : Text) : Run Value :=
  (Expr.ofText t).eval Function.call frame budget

/-- One level of an expression at a time: the budget is looked at first, then the outermost shape of the
text, and each text inside is evaluated in its turn as an expression of its own. -/
theorem Run.expression_eq (frame : Frame) (budget : Int) (t : Text) :
    Run.expression frame budget t =
      if budget < 0 then Run.fail .nestingLimit
      else match Shape.ofText t with
      | .ok (.integer n) => return .integer n
      | .ok (.name x) => Run.ofExcept (frame.fetch x)
      | .ok (.split r) => do
        let t ← Run.ofValue (← Run.ofExcept (frame.fetch r)).asText
        Run.changing fun h => h.characters t
      | .ok (.join r) => do
        let a ← Run.ofValue (← Run.ofExcept (frame.fetch r)).asArray
        return .text (← Run.reading fun h => h.join a)
      | .ok (.length r) => do
        let v ← Run.ofExcept (frame.fetch r)
        return .integer (← Run.reading fun h => h.length v)
      | .ok (.reverse r) => do
        let v ← Run.ofExcept (frame.fetch r)
        let s ← Run.reading fun h => h.sequence v
        Run.changing fun h => h.hold s.reverse
      | .ok (.slice r start) => do
        let v ← Run.ofExcept (frame.fetch r)
        let n ← Run.ofValue (← Run.expression frame (budget - 1) start).asInteger
        let s ← Run.reading fun h => do (← h.sequence v).suffix n
        Run.changing fun h => h.hold s
      | .ok (.index r inside) => do
        let a ← Run.ofValue (← Run.ofExcept (frame.fetch r)).asArray
        let n ← Run.ofValue (← Run.expression frame (budget - 1) inside).asInteger
        Run.reading fun h => h.readAt a n
      | .ok (.remainder left right) => do
        let m ← Run.ofValue (← Run.expression frame budget left).asInteger
        let n ← Run.ofValue (← Run.expression frame budget right).asInteger
        return .integer (← Run.ofValue (Value.remainder m n))
      | .ok (.call f arguments) => do
        let callee ← Run.resolve f
        let args ← Run.ofExcept (arguments.mapM (Argument.eval frame))
        callee.call args
      | .error reason => Run.fail (.reading reason) := by
  unfold Run.expression
  cases h : Shape.ofText t with
  | error reason => rw [Expr.ofText_of_error h, Expr.eval]
  | ok shape =>
    rw [Expr.ofText_of_shape h]
    cases shape <;> rw [Shape.toExpr, Expr.eval]

end Scriptlet
