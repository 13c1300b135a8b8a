import Scriptlet.Expr.Shape
import Scriptlet.Function

/-!
Values of the scripts. A text is a value by itself; an array is a handle, so that all its holders
see a write through any of them. A function value is a handle too: two of them are the same when they
have the same compiled function, whatever its statements say.
-/

namespace Scriptlet

structure ArrayId where
  index : Nat
  deriving DecidableEq, Repr

structure ContextId where
  index : Nat
  deriving DecidableEq, Repr

/-- What tells one compiled function from all others: the context that compiled it, and which search
of the script text that was. -/
structure FunctionId where
  context : ContextId
  search : Nat
  deriving DecidableEq, Repr

structure CompiledFunction where
  id : FunctionId
  function : Function
  deriving DecidableEq, Repr

/-- A compiled function together with the context that resolves the names it calls. -/
structure BoundFunction extends CompiledFunction where
  context : ContextId
  deriving DecidableEq, Repr

/-- That two function values have one and the same compiled function. -/
def BoundFunction.Same (f g : BoundFunction) : Prop :=
  f.id = g.id

instance (f g : BoundFunction) : Decidable (f.Same g) :=
  inferInstanceAs (Decidable (f.id = g.id))

inductive Value where
  | integer (n : Int)
  | text (t : Text)
  | array (a : ArrayId)
  | function (f : BoundFunction)
  deriving DecidableEq, Repr

inductive Kind where
  | integer
  | text
  | array
  | function
  deriving DecidableEq, Repr

inductive ValueError where
  /-- The value is of none of the kinds that the operation takes. -/
  | typeMismatch (expected : List Kind) (found : Kind)
  | indexOutOfRange (index : Int) (length : Nat)
  | divisionByZero
  /-- The write would put an array inside itself. -/
  | cyclicArray
  deriving DecidableEq, Repr

def Kind.label : Kind → String
  | .integer => "integer"
  | .text => "text"
  | .array => "array"
  | .function => "function"

def ValueError.message : ValueError → String
  | .typeMismatch expected found =>
    "type error: expected " ++ " or ".intercalate (expected.map Kind.label) ++ ", found "
      ++ found.label
  | .indexOutOfRange index length =>
    "index " ++ String.ofList (Decimal.ofInt index) ++ " out of range for length "
      ++ String.ofList (Decimal.ofNat length)
  | .divisionByZero => "integer remainder by zero"
  | .cyclicArray => "cannot store an array inside itself"

namespace Value

def kind : Value → Kind
  | .integer _ => .integer
  | .text _ => .text
  | .array _ => .array
  | .function _ => .function

def asInteger : Value → Except ValueError Int
  | .integer n => .ok n
  | v => .error (.typeMismatch [.integer] v.kind)

def asText : Value → Except ValueError Text
  | .text t => .ok t
  | v => .error (.typeMismatch [.text] v.kind)

def asArray : Value → Except ValueError ArrayId
  | .array a => .ok a
  | v => .error (.typeMismatch [.array] v.kind)

def asFunction : Value → Except ValueError BoundFunction
  | .function f => .ok f
  | v => .error (.typeMismatch [.function] v.kind)

def array? : Value → Option ArrayId
  | .array a => some a
  | _ => none

/-- What is left of a number after taking away the other as often as it fits, toward zero: the
remainder has the sign of the dividend. -/
def remainder (dividend divisor : Int) : Except ValueError Int :=
  if divisor = 0 then .error .divisionByZero else .ok (dividend.tmod divisor)

end Value

/-! ### Errors -/

inductive Error where
  | declaration (reason : DeclarationError)
  | reading (reason : ReadError)
  | value (reason : ValueError)
  /-- Indexes and slices are nested deeper than the budget allows. -/
  | nestingLimit
  /-- The context no longer has the script text in which to look for the name. -/
  | contextReleased (name : Text)
  | unboundVariable (name : Text)
  /-- The call has fewer arguments than the function has parameters; this is the first without. -/
  | missingArgument (function param : Text)
  deriving DecidableEq, Repr

def Error.message : Error → String
  | .declaration reason => reason.message
  | .reading reason => reason.message
  | .value reason => reason.message
  | .nestingLimit => "recursion limit reached"
  | .contextReleased name => "script text already released, cannot extract " ++ marked name
  | .unboundVariable name => "undefined variable " ++ marked name
  | .missingArgument function param =>
    "function " ++ marked function ++ " called without a value for " ++ marked param

end Scriptlet
