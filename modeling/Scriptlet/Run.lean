import Scriptlet.Context
import Scriptlet.Expr.Basic
import Scriptlet.Heap.Element

/-!
Runs: computations that read and write the heap and one context. A run that fails keeps what it did
before. Giving up because calls are nested too deep is no error of the script and stands apart from
those.
-/

namespace Scriptlet

/-! ### Frames -/

structure Frame where
  bindings : List (Text × Value) := []
  deriving DecidableEq, Repr

namespace Frame

def put (x : Text) (v : Value) : List (Text × Value) → List (Text × Value)
  | [] => [(x, v)]
  | (y, w) :: rest => if y = x then (x, v) :: rest else (y, w) :: put x v rest

def set (frame : Frame) (x : Text) (v : Value) : Frame :=
  ⟨put x v frame.bindings⟩

def get? (frame : Frame) (x : Text) : Option Value :=
  frame.bindings.lookup x

def fetch (frame : Frame) (x : Text) : Except Error Value :=
  match frame.get? x with
  | some v => .ok v
  | none => .error (.unboundVariable x)

/-- A frame with the parameters of a function bound to the arguments in order. Arguments beyond the
last parameter are ignored. -/
def bindParams (function : Text) (frame : Frame) : List Text → List Value → Except Error Frame
  | [], _ => .ok frame
  | param :: _, [] => .error (.missingArgument function param)
  | param :: params, arg :: args => bindParams function (frame.set param arg) params args

def ofCall (f : Function) (args : List Value) : Except Error Frame :=
  bindParams f.name {} f.params args

theorem get?_set (frame : Frame) (x y : Text) (v : Value) :
    (frame.set x v).get? y = if y = x then some v else frame.get? y := by
  obtain ⟨bindings⟩ := frame
  simp only [set, get?]
  induction bindings with
  | nil => by_cases h : y = x <;> simp [put, List.lookup_cons, h, beq_eq_false_iff_ne.2]
  | cons binding rest ih =>
    obtain ⟨z, w⟩ := binding
    simp only [put]
    by_cases hz : z = x
    · by_cases h : y = x <;> simp [hz, List.lookup_cons, h, beq_eq_false_iff_ne.2]
    · by_cases h : y = z
      · simp [hz, h]
      · simp [hz, List.lookup_cons, ih, beq_eq_false_iff_ne.2 h]

end Frame

/-! ### Runs -/

structure State where
  heap : Heap
  context : Context
  deriving DecidableEq, Repr

inductive Halt where
  | error (reason : Error)
  /-- Calls are nested deeper than the limits allow. -/
  | tooDeep
  deriving DecidableEq, Repr

def Halt.message : Halt → String
  | .error reason => reason.message
  | .tooDeep => "calls are nested too deep"

abbrev Run := EStateM Halt State

namespace Run

def fail {α : Type} (reason : Error) : Run α :=
  throw (.error reason)

def ofExcept {α : Type} : Except Error α → Run α
  | .ok a => pure a
  | .error reason => fail reason

def ofValue {α : Type} : Except ValueError α → Run α
  | .ok a => pure a
  | .error reason => fail (.value reason)

def reading {α : Type} (f : Heap → Except ValueError α) : Run α := do
  ofValue (f (← get).heap)

def changing {α : Type} (f : Heap → α × Heap) : Run α :=
  modifyGet fun ⟨heap, context⟩ =>
    let (a, heap) := f heap
    (a, ⟨heap, context⟩)

def resolve (name : Text) : Run Function := do
  let (result, context) := (← get).context.resolve name
  modify fun state => { state with context }
  ofExcept result

def limits : Run Limits :=
  return (← get).context.limits

end Run

/-! ### Expressions -/

/-- What a call of a function does. -/
abbrev Invocation := Function → List Value → Run Value

def Argument.eval (frame : Frame) : Argument → Except Error Value
  | .integer n => .ok (.integer n)
  | .name x => frame.fetch x

namespace Expr

/-- The value of an expression in a frame. The receiver of a member access or an index is looked at
before what is between the brackets; a function's name is resolved before its arguments. -/
def eval (invoke : Invocation) (frame : Frame) (e : Expr) (budget : Int) : Run Value :=
  if budget < 0 then Run.fail .nestingLimit
  else match e with
  | .integer n => return .integer n
  | .name x => Run.ofExcept (frame.fetch x)
  | .split r => do
    let t ← Run.ofValue (← Run.ofExcept (frame.fetch r)).asText
    Run.changing fun h => h.characters t
  | .join r => do
    let a ← Run.ofValue (← Run.ofExcept (frame.fetch r)).asArray
    return .text (← Run.reading fun h => h.join a)
  | .length r => do
    let v ← Run.ofExcept (frame.fetch r)
    return .integer (← Run.reading fun h => h.length v)
  | .reverse r => do
    let v ← Run.ofExcept (frame.fetch r)
    let s ← Run.reading fun h => h.sequence v
    Run.changing fun h => h.hold s.reverse
  | .slice r start => do
    let v ← Run.ofExcept (frame.fetch r)
    let n ← Run.ofValue (← start.eval invoke frame (budget - 1)).asInteger
    let s ← Run.reading fun h => do (← h.sequence v).suffix n
    Run.changing fun h => h.hold s
  | .index r position => do
    let a ← Run.ofValue (← Run.ofExcept (frame.fetch r)).asArray
    let n ← Run.ofValue (← position.eval invoke frame (budget - 1)).asInteger
    Run.reading fun h => h.readAt a n
  | .remainder left right => do
    let m ← Run.ofValue (← left.eval invoke frame budget).asInteger
    let n ← Run.ofValue (← right.eval invoke frame budget).asInteger
    return .integer (← Run.ofValue (Value.remainder m n))
  | .call f arguments => do
    let callee ← Run.resolve f
    let args ← Run.ofExcept (arguments.mapM (Argument.eval frame))
    invoke callee args
  | .malformed reason => Run.fail (.reading reason)

end Expr

end Scriptlet
