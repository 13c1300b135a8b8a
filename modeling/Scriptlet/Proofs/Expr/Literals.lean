import Mathlib.Data.List.Induction
import Mathlib.Data.Nat.Digits.Defs
import Scriptlet.Proofs.Expr.Grammar
import Scriptlet.Proofs.Expr.Recognition
import Scriptlet.Run

namespace Scriptlet

/-! ### Rows of digits -/

namespace Decimal

def digit (c : Char) : Nat :=
  c.toNat - '0'.toNat

theorem value_concat (t : Text) (c : Char) : value (t ++ [c]) = 10 * value t + digit c := by
  simp [value, Nat.ofDigitChars_append, Nat.ofDigitChars_cons, digit]

/-- The number that a row of digits is read as is its decimal value, the last digit counting once. -/
theorem value_eq_ofDigits (t : Text) : value t = Nat.ofDigits 10 (t.reverse.map digit) := by
  induction t using List.reverseRecOn with
  | nil => rfl
  | append_singleton t c ih =>
    have hdigits : (t ++ [c]).reverse.map digit = digit c :: t.reverse.map digit := by simp
    rw [value_concat, hdigits, Nat.ofDigits_cons, ih, Nat.add_comm]

end Decimal

/-- However long a row of digits is, it is read as its decimal value, or refused if that is out of
range. -/
theorem readDigits_eq_of_le (row : Text) :
    readDigits row =
      if Nat.ofDigits 10 (row.reverse.map Decimal.digit) ≤ 2 ^ 63 - 1 then
        .ok (Nat.ofDigits 10 (row.reverse.map Decimal.digit))
      else .error (.integerOutOfRange row) := by
  rw [Expr.Form.readDigits_eq, ← Decimal.value_eq_ofDigits]
  simp only [← Nat.lt_iff_le_pred (Nat.two_pow_pos 63)]

theorem Argument.ofText_of_digits {row : Text} (hrow : Decimal.isDigits row = true) (call : Text) :
    ofText call row = (readDigits row).map .integer := by
  have hne : row ≠ [] := (Text.isAll_iff.mp hrow).1
  rw [ofText, if_neg hne, if_pos hrow]

theorem Expr.eval_ofText_of_digits {row : Text} (hrow : Decimal.isDigits row = true)
    {invoke : Invocation} {frame : Frame} {budget : Int} (hbudget : 0 ≤ budget) (s : State) :
    (Expr.ofText row).eval invoke frame budget s =
      match readDigits row with
      | .ok n => .ok (.integer n) s
      | .error reason => .error (.error (.reading reason)) s := by
  have hshape : Shape.ofText row = (readDigits row).map .integer := by
    rw [Shape.ofText, if_pos hrow]
  cases hread : readDigits row with
  | ok n =>
    rw [hread] at hshape
    rw [Expr.ofText_of_shape hshape, Shape.toExpr, eval, if_neg (by omega)]
    rfl
  | error reason =>
    rw [hread] at hshape
    rw [Expr.ofText_of_error hshape, eval, if_neg (by omega)]
    rfl

/-! ### Numbers in trees -/

def Argument.literal? : Argument → Option Nat
  | .integer n => some n
  | .name _ => none

namespace Expr

/-- The numbers that are written in an expression. -/
def literals : Expr → List Nat
  | .integer n => [n]
  | .slice _ start => start.literals
  | .index _ position => position.literals
  | .remainder left right => left.literals ++ right.literals
  | .call _ arguments => arguments.filterMap Argument.literal?
  | .name _ | .split _ | .join _ | .length _ | .reverse _ | .malformed _ => []

end Expr

def Shape.literals : Shape → List Nat
  | .integer n => [n]
  | .call _ arguments => arguments.filterMap Argument.literal?
  | _ => []

theorem inRange_of_readDigits {digits : Text} {n : Nat} (h : readDigits digits = .ok n) :
    InRange n := by
  unfold readDigits at h
  dsimp only at h
  split at h
  · rename_i hrange
    cases h
    exact hrange
  · cases h

theorem Argument.inRange_of_ofText {call piece : Text} {argument : Argument} {n : Nat}
    (h : ofText call piece = .ok argument) (hn : argument.literal? = some n) : InRange n := by
  unfold ofText at h
  split at h
  · cases h
  split at h
  · cases hread : readDigits piece with
    | error reason =>
      rw [hread] at h
      cases h
    | ok m =>
      rw [hread] at h
      cases h
      cases hn
      exact inRange_of_readDigits hread
  · cases h
    cases hn

theorem Argument.inRange_of_mapM {call : Text} {pieces : List Text} {arguments : List Argument}
    {n : Nat} (h : pieces.mapM (ofText call) = .ok arguments)
    (hn : n ∈ arguments.filterMap literal?) : InRange n := by
  obtain ⟨argument, hargument, hliteral⟩ := List.mem_filterMap.mp hn
  obtain ⟨piece, -, hread⟩ := (mem_of_mapM_eq_ok h).2 argument hargument
  exact inRange_of_ofText hread hliteral

namespace Shape

theorem literals_of_ofMember? {receiver member : Text} {shape : Shape}
    (h : ofMember? receiver member = some shape) : shape.literals = [] := by
  rcases ofMember?_eq_some_iff.mp h with
    ⟨-, rfl⟩ | ⟨-, rfl⟩ | ⟨-, rfl⟩ | ⟨-, rfl⟩ | ⟨_, -, rfl⟩ <;> rfl

theorem inRange_of_mem_literals {t : Text} {shape : Shape} {n : Nat} (h : ofText t = .ok shape)
    (hn : n ∈ shape.literals) : InRange n := by
  unfold ofText at h
  split at h
  · cases hread : readDigits t with
    | error reason =>
      rw [hread] at h
      cases h
    | ok m =>
      rw [hread] at h
      cases h
      obtain rfl := List.mem_singleton.mp hn
      exact inRange_of_readDigits hread
  split at h
  · cases h
    cases hn
  split at h
  · rename_i found hfound
    cases h
    simp only [Option.orElse_eq_orElse, Option.orElse_eq_or, Option.or_eq_some_iff] at hfound
    rcases hfound with hmember | ⟨-, hindex | ⟨-, hremainder⟩⟩
    · obtain ⟨_, _, -, -, -, hmember⟩ := member?_eq_some_iff.mp hmember
      rw [literals_of_ofMember? hmember] at hn
      cases hn
    · obtain ⟨_, _, -, -, -, -, rfl⟩ := index?_eq_some_iff.mp hindex
      cases hn
    · obtain ⟨_, _, _, -, -, -, -, rfl⟩ := remainder?_eq_some_iff.mp hremainder
      cases hn
  split at h
  · rename_i function inside _
    cases hread : (Text.pieces ',' inside).mapM (Argument.ofText t) with
    | error reason =>
      rw [hread] at h
      cases h
    | ok arguments =>
      rw [hread] at h
      cases h
      exact Argument.inRange_of_mapM hread hn
  · cases h

end Shape

/-- The numbers in the tree of a text are in range; the recursion is on the length of the text. -/
theorem Expr.inRange_of_mem_literals {t : Text} {n : Nat} (hn : n ∈ (Expr.ofText t).literals) :
    InRange n := by
  cases hshape : Shape.ofText t with
  | error reason =>
    rw [ofText_of_error hshape] at hn
    cases hn
  | ok shape =>
    have hshorter := Shape.ofText_inner hshape
    rw [ofText_of_shape hshape] at hn
    cases shape with
    | slice r start =>
      have : start.length < t.length := hshorter start (by simp [Shape.inner])
      exact inRange_of_mem_literals (t := start) hn
    | index r inside =>
      have : inside.length < t.length := hshorter inside (by simp [Shape.inner])
      exact inRange_of_mem_literals (t := inside) hn
    | remainder left right =>
      have : left.length < t.length := hshorter left (by simp [Shape.inner])
      have : right.length < t.length := hshorter right (by simp [Shape.inner])
      rcases List.mem_append.mp hn with hn | hn
      · exact inRange_of_mem_literals (t := left) hn
      · exact inRange_of_mem_literals (t := right) hn
    | integer | call => exact Shape.inRange_of_mem_literals hshape hn
    | name | split | join | length | reverse => cases hn
termination_by t.length

end Scriptlet
