import Scriptlet.Expr.Shape

/-!
Expression trees. A text is read level by level down to its leaves; what has no shape becomes a
malformed leaf that carries the reason, because such a text is an error only where a run reaches
it. Reading therefore never fails, and `Expr.ofText` has one equation per shape.

Written out again, trees are not always read back as they are: with `a[0]%b[1]` the outermost brackets
win. A tree is writable when its names are made of the letters that their place allows, its numbers fit
64 bits, and no remainder is the left operand of another; `Expr.Clear` says when no overlap arises.
-/

namespace Scriptlet

inductive Expr where
  | integer (n : Nat)
  | name (x : Text)
  | split (receiver : Text)
  | join (receiver : Text)
  | length (receiver : Text)
  | reverse (receiver : Text)
  | slice (receiver : Text) (start : Expr)
  | index (receiver : Text) (position : Expr)
  | remainder (left right : Expr)
  | call (function : Text) (arguments : List Argument)
  /-- A text that has no shape. -/
  | malformed (reason : ReadError)
  deriving DecidableEq, Repr

namespace Expr

def ofText (t : Text) : Expr :=
  match hshape : Shape.ofText t with
  | .error reason => .malformed reason
  | .ok (.integer n) => .integer n
  | .ok (.name x) => .name x
  | .ok (.split r) => .split r
  | .ok (.join r) => .join r
  | .ok (.length r) => .length r
  | .ok (.reverse r) => .reverse r
  | .ok (.slice r start) =>
    have : start.length < t.length := Shape.ofText_inner hshape _ (by simp [Shape.inner])
    .slice r (ofText start)
  | .ok (.index r inside) =>
    have : inside.length < t.length := Shape.ofText_inner hshape _ (by simp [Shape.inner])
    .index r (ofText inside)
  | .ok (.remainder left right) =>
    have : left.length < t.length := Shape.ofText_inner hshape _ (by simp [Shape.inner])
    have : right.length < t.length := Shape.ofText_inner hshape _ (by simp [Shape.inner])
    .remainder (ofText left) (ofText right)
  | .ok (.call f arguments) => .call f arguments
termination_by t.length

def nesting : Expr → Nat
  | .slice _ start => start.nesting + 1
  | .index _ inside => inside.nesting + 1
  | .remainder left right => max left.nesting right.nesting
  | _ => 0

/-- The functions that an expression calls, in the order in which a run reaches them. -/
def callees : Expr → List Text
  | .slice _ start => start.callees
  | .index _ inside => inside.callees
  | .remainder left right => left.callees ++ right.callees
  | .call f _ => [f]
  | _ => []

end Expr

def Shape.toExpr : Shape → Expr
  | .integer n => .integer n
  | .name x => .name x
  | .split r => .split r
  | .join r => .join r
  | .length r => .length r
  | .reverse r => .reverse r
  | .slice r start => .slice r (.ofText start)
  | .index r inside => .index r (.ofText inside)
  | .remainder left right => .remainder (.ofText left) (.ofText right)
  | .call f arguments => .call f arguments

theorem Expr.ofText_of_shape {t : Text} {shape : Shape} (h : Shape.ofText t = .ok shape) :
    Expr.ofText t = shape.toExpr := by
  rw [Expr.ofText]
  split <;> rename_i hshape <;> cases hshape.symm.trans h <;> rfl

theorem Expr.ofText_of_error {t : Text} {reason : ReadError} (h : Shape.ofText t = .error reason) :
    Expr.ofText t = .malformed reason := by
  rw [Expr.ofText]
  split <;> rename_i hshape <;> cases hshape.symm.trans h
  rfl

def Argument.render : Argument → Text
  | .integer n => Decimal.ofNat n
  | .name x => x

namespace Expr

def render : Expr → Text
  | .integer n => Decimal.ofNat n
  | .name x => x
  | .split r => r ++ ".split(\"\")".toList
  | .join r => r ++ ".join(\"\")".toList
  | .length r => r ++ ".length".toList
  | .reverse r => r ++ ".reverse()".toList
  | .slice r start => r ++ ".slice(".toList ++ start.render ++ [')']
  | .index r position => r ++ ['['] ++ position.render ++ [']']
  | .remainder left right => left.render ++ ['%'] ++ right.render
  | .call f arguments => f ++ ['('] ++ [','].intercalate (arguments.map Argument.render) ++ [')']
  | .malformed _ => []

def isRemainder : Expr → Bool
  | .remainder _ _ => true
  | _ => false

def isIndex : Expr → Bool
  | .index _ _ => true
  | _ => false

def isSlice : Expr → Bool
  | .slice _ _ => true
  | _ => false

end Expr

def Argument.Writable : Argument → Prop
  | .integer n => InRange n
  | .name x => Text.isAll Char.isLower x = true

namespace Expr

def Writable : Expr → Prop
  | .integer n => InRange n
  | .name x => Text.isAll Char.isAlpha x = true
  | .split r | .join r | .length r | .reverse r => Text.isAll Char.isLower r = true
  | .slice r e | .index r e => Text.isAll Char.isLower r = true ∧ e.Writable
  | .remainder left right => left.isRemainder = false ∧ left.Writable ∧ right.Writable
  | .call f arguments =>
    Text.isAll Char.isAlpha f = true ∧ arguments ≠ [] ∧ ∀ a ∈ arguments, a.Writable
  | .malformed _ => False

/-- Trees in which no remainder also looks like a shape that is tried before it, or is cut at a
percent sign of its left operand. -/
def Clear : Expr → Prop
  | .slice _ e | .index _ e => e.Clear
  | .remainder left right =>
    left.Clear ∧ right.Clear ∧ '%' ∉ left.render
      ∧ ¬ (left.isIndex = true ∧ right.render.getLast? = some ']')
      ∧ ¬ (left.isSlice = true ∧ right.render.getLast? = some ')')
  | _ => True

end Expr

instance Argument.decidableWritable : (a : Argument) → Decidable a.Writable
  | .integer n => inferInstanceAs (Decidable (InRange n))
  | .name x => inferInstanceAs (Decidable (Text.isAll Char.isLower x = true))

namespace Expr

instance decidableWritable : (e : Expr) → Decidable e.Writable
  | .integer n => inferInstanceAs (Decidable (InRange n))
  | .name x => inferInstanceAs (Decidable (Text.isAll Char.isAlpha x = true))
  | .split r | .join r | .length r | .reverse r =>
    inferInstanceAs (Decidable (Text.isAll Char.isLower r = true))
  | .slice r e | .index r e =>
    have := e.decidableWritable
    inferInstanceAs (Decidable (Text.isAll Char.isLower r = true ∧ e.Writable))
  | .remainder left right =>
    have := left.decidableWritable
    have := right.decidableWritable
    inferInstanceAs (Decidable (left.isRemainder = false ∧ left.Writable ∧ right.Writable))
  | .call f arguments =>
    inferInstanceAs (Decidable
      (Text.isAll Char.isAlpha f = true ∧ arguments ≠ [] ∧ ∀ a ∈ arguments, a.Writable))
  | .malformed _ => isFalse id

instance decidableClear : (e : Expr) → Decidable e.Clear
  | .slice _ e | .index _ e => e.decidableClear
  | .remainder left right =>
    have := left.decidableClear
    have := right.decidableClear
    inferInstanceAs (Decidable (left.Clear ∧ right.Clear ∧ '%' ∉ left.render
      ∧ ¬ (left.isIndex = true ∧ right.render.getLast? = some ']')
      ∧ ¬ (left.isSlice = true ∧ right.render.getLast? = some ')')))
  | .integer _ | .name _ | .split _ | .join _ | .length _ | .reverse _ | .call _ _
  | .malformed _ => isTrue trivial

end Expr

end Scriptlet
