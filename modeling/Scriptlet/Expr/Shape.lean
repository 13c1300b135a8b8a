import Scriptlet.Text.Basic

/-!
The outermost shape of an expression text. The shapes overlap, as in `a[0]%b[1]`, which is a
remainder and also an index with the text `0]%b[1` inside; the order in which they are tried
settles every overlap. Inner texts stay as they are, so that reading one level never looks at the
next: `Shape.ofText_inner` says that they are shorter than the whole.
-/

namespace Scriptlet

inductive ReadError where
  /-- The statement neither assigns nor returns. -/
  | unknownStatement (statement : Text)
  /-- The expression has none of the known shapes. -/
  | unsupportedExpression (expression : Text)
  /-- The digits stand for a number beyond 64 bits. -/
  | integerOutOfRange (digits : Text)
  /-- The call has nothing before, between or after its commas. -/
  | emptyArgument (call : Text)
  deriving DecidableEq, Repr

def ReadError.message : ReadError → String
  | .unknownStatement t => "cannot determine left side of statement " ++ marked t
  | .unsupportedExpression t => "unsupported JS expression " ++ marked t
  | .integerOutOfRange t => "integer literal " ++ marked t ++ " is out of range"
  | .emptyArgument t => "empty argument in call " ++ marked t

/-- An argument of a call: a number, or the name of a variable. -/
inductive Argument where
  | integer (n : Nat)
  | name (x : Text)
  deriving DecidableEq, Repr

inductive Shape where
  | integer (n : Nat)
  | name (x : Text)
  /-- Written `r.split("")`. -/
  | split (receiver : Text)
  /-- Written `r.join("")`. -/
  | join (receiver : Text)
  /-- Written `r.length`. -/
  | length (receiver : Text)
  /-- Written `r.reverse()`. -/
  | reverse (receiver : Text)
  /-- Written `r.slice(start)`. -/
  | slice (receiver start : Text)
  /-- Written `r[index]`. -/
  | index (receiver index : Text)
  /-- Written `left%right`. -/
  | remainder (left right : Text)
  /-- Written `f(arguments)`. -/
  | call (function : Text) (arguments : List Argument)
  deriving DecidableEq, Repr

def readDigits (digits : Text) : Except ReadError Nat :=
  let n := Decimal.value digits
  if InRange n then .ok n else .error (.integerOutOfRange digits)

def Argument.ofText (call piece : Text) : Except ReadError Argument :=
  if piece = [] then .error (.emptyArgument call)
  else if Decimal.isDigits piece then (readDigits piece).map .integer
  else .ok (.name piece)

namespace Shape

def ofMember? (receiver member : Text) : Option Shape :=
  if member = "split(\"\")".toList then some (.split receiver)
  else if member = "join(\"\")".toList then some (.join receiver)
  else if member = "length".toList then some (.length receiver)
  else if member = "reverse()".toList then some (.reverse receiver)
  else do
    let rest ← Text.after? "slice(".toList member
    let start ← Text.before? [')'] rest
    return .slice receiver start

/-- Reads `r.member`, on one line after the dot. -/
def member? (t : Text) : Option Shape :=
  match Text.run Char.isLower t with
  | (c :: receiver, '.' :: member) =>
    if '\n' ∈ member then none else ofMember? (c :: receiver) member
  | _ => none

/-- Reads `r[index]`: everything up to a closing bracket at the very end, on one line. -/
def index? (t : Text) : Option Shape :=
  match Text.run Char.isLower t with
  | (c :: receiver, '[' :: rest) => do
    let inside ← Text.before? [']'] rest
    if inside = [] ∨ '\n' ∈ inside then none else return .index (c :: receiver) inside
  | _ => none

/-- Reads `left%right`, on one line. The left side has a character at least, so a percent sign in
front belongs to it, and it ends at the first percent sign after that character. -/
def remainder? (t : Text) : Option Shape :=
  match t with
  | [] => none
  | c :: rest => do
    let (left, right) ← Text.cut? '%' rest
    if right = [] ∨ '\n' ∈ t then none else return .remainder (c :: left) right

def isArgumentChar (c : Char) : Bool :=
  c.isLower || c.isDigit || c == ','

/-- Cuts `f(pieces)` into the function's name and the text between the parentheses. -/
def callParts? (t : Text) : Option (Text × Text) :=
  match Text.run Char.isAlpha t with
  | (c :: function, '(' :: rest) => do
    let inside ← Text.before? [')'] rest
    if Text.isAll isArgumentChar inside then return (c :: function, inside) else none
  | _ => none

/-- Reads the outermost shape of an expression text. A member access, an index and a remainder are
tried in this order; an unknown member leaves the text to the shapes after it. -/
def ofText (t : Text) : Except ReadError Shape :=
  if Decimal.isDigits t then (readDigits t).map .integer
  else if Text.isAll Char.isAlpha t then .ok (.name t)
  else match member? t <|> index? t <|> remainder? t with
    | some shape => .ok shape
    | none => match callParts? t with
      | some (function, inside) =>
        ((Text.pieces ',' inside).mapM (Argument.ofText t)).map (.call function)
      | none => .error (.unsupportedExpression t)

def inner : Shape → List Text
  | .slice _ inside => [inside]
  | .index _ inside => [inside]
  | .remainder left right => [left, right]
  | _ => []

theorem ofMember?_inner {receiver member : Text} {shape : Shape}
    (h : ofMember? receiver member = some shape) :
    ∀ u ∈ shape.inner, u.length < member.length := by
  unfold ofMember? at h
  split at h
  · cases h; simp [inner]
  split at h
  · cases h; simp [inner]
  split at h
  · cases h; simp [inner]
  split at h
  · cases h; simp [inner]
  simp only [Option.bind_eq_bind, Option.bind_eq_some_iff, Option.pure_def, Option.some.injEq] at h
  obtain ⟨rest, hrest, start, hstart, rfl⟩ := h
  rw [Text.after?_eq_some_iff] at hrest
  rw [Text.before?_eq_some_iff] at hstart
  subst hrest hstart
  simp [inner]
  omega

theorem member?_inner {t : Text} {shape : Shape} (h : member? t = some shape) :
    ∀ u ∈ shape.inner, u.length < t.length := by
  unfold member? at h
  split at h
  · rename_i c receiver member hrun
    have hlength := Text.length_of_run hrun
    split at h
    · cases h
    · intro u hu
      have := ofMember?_inner h u hu
      simp only [List.length_cons] at hlength
      omega
  · cases h

theorem index?_inner {t : Text} {shape : Shape} (h : index? t = some shape) :
    ∀ u ∈ shape.inner, u.length < t.length := by
  unfold index? at h
  split at h
  · rename_i c receiver rest hrun
    have hlength := Text.length_of_run hrun
    simp only [Option.bind_eq_bind, Option.bind_eq_some_iff] at h
    obtain ⟨inside, hinside, h⟩ := h
    rw [Text.before?_eq_some_iff] at hinside
    split at h
    · cases h
    · cases h
      subst hinside
      simp only [inner, List.mem_singleton, forall_eq]
      simp only [List.length_cons, List.length_append] at hlength
      omega
  · cases h

theorem remainder?_inner {t : Text} {shape : Shape} (h : remainder? t = some shape) :
    ∀ u ∈ shape.inner, u.length < t.length := by
  unfold remainder? at h
  split at h
  · cases h
  · rename_i c rest
    simp only [Option.bind_eq_bind, Option.bind_eq_some_iff] at h
    obtain ⟨⟨left, right⟩, hcut, h⟩ := h
    obtain ⟨rfl, -⟩ := Text.cut?_eq_some_iff.1 hcut
    dsimp only at h
    split at h
    · cases h
    · cases h
      simp [inner]
      omega

theorem ofText_inner {t : Text} {shape : Shape} (h : ofText t = .ok shape) :
    ∀ u ∈ shape.inner, u.length < t.length := by
  unfold ofText at h
  split at h
  · generalize readDigits t = number at h
    cases number with
    | error e => cases h
    | ok n => cases h; simp [inner]
  split at h
  · cases h; simp [inner]
  split at h
  · rename_i shape' hshape
    cases h
    simp only [Option.orElse_eq_orElse, Option.orElse_eq_or, Option.or_eq_some_iff] at hshape
    rcases hshape with h | ⟨-, h | ⟨-, h⟩⟩
    · exact member?_inner h
    · exact index?_inner h
    · exact remainder?_inner h
  split at h
  · rename_i function inside _
    generalize (Text.pieces ',' inside).mapM (Argument.ofText t) = arguments at h
    cases arguments with
    | error e => cases h
    | ok as => cases h; simp [inner]
  · cases h

end Shape

end Scriptlet
