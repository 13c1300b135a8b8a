import Scriptlet.Text.Quoted
import Scriptlet.Value

namespace Scriptlet

/-- Bounds on a run. The nesting budget is how deep indexes and slices may be nested; the call
depth is how deep calls may be nested before the run is given up. -/
structure Limits where
  nestingBudget : Int := 20
  callDepth : Nat := 1000000
  deriving DecidableEq, Repr

structure Context where
  /-- The place that the context gets when it is opened. -/
  id : ContextId := ⟨0⟩
  /-- The script text, until it is released. -/
  script : Option Text
  /-- The compiled functions by name, the latest first. -/
  compiled : List (Text × CompiledFunction) := []
  /-- How often a name was looked for in the script text. -/
  extractions : Nat := 0
  limits : Limits := {}
  deriving DecidableEq, Repr

namespace Context

def ofScript (script : Text) (limits : Limits) : Context :=
  { script := some script, limits }

def empty : Context :=
  { script := none }

def cached? (c : Context) (name : Text) : Option CompiledFunction :=
  c.compiled.lookup name

def compiled? (c : Context) (name : Text) : Option Function :=
  (c.cached? name).map (·.function)

def isReleased (c : Context) : Bool :=
  c.script.isNone

def release (c : Context) : Context :=
  { c with script := none }

/-- The compiled function of a name, compiled now if it was not before. A search of the text counts
even when it fails, and its number is the identity of the function that it finds. -/
def compile (c : Context) (name : Text) : Except Error CompiledFunction × Context :=
  match c.cached? name with
  | some f => (.ok f, c)
  | none =>
    match c.script with
    | none => (.error (.contextReleased name), c)
    | some script =>
      let c := { c with extractions := c.extractions + 1 }
      match Function.extract script name with
      | .error reason => (.error (.declaration reason), c)
      | .ok f =>
        let f : CompiledFunction := ⟨⟨c.id, c.extractions⟩, f⟩
        (.ok f, { c with compiled := (name, f) :: c.compiled })

/-- What a compiled function says is all that matters to a run. -/
def resolve (c : Context) (name : Text) : Except Error Function × Context :=
  let (result, c) := c.compile name
  (result.map (·.function), c)

def describe (c : Context) : Text :=
  "SourceContext \x7b released: ".toList ++ (if c.isReleased then "true" else "false").toList
    ++ ", cached_functions: ".toList ++ Decimal.ofNat c.compiled.length
    ++ ", limits: Limits \x7b recursion_budget: ".toList ++ Decimal.ofInt c.limits.nestingBudget
    ++ " \x7d \x7d".toList

end Context

def BoundFunction.describe (f : BoundFunction) : Text :=
  let quotedList (items : List Text) : Text :=
    '[' :: ", ".toList.intercalate (items.map Text.Quoted.encode) ++ [']']
  "Callable(Function \x7b name: ".toList ++ Text.Quoted.encode f.function.name
    ++ ", params: ".toList ++ quotedList f.function.params
    ++ ", statements: ".toList ++ quotedList f.function.statements ++ " \x7d)".toList

end Scriptlet
