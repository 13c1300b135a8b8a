import Scriptlet.Proofs.Run.Lookups
import Scriptlet.Proofs.Run.Outcome

namespace Scriptlet

namespace Run

variable {α β : Type} {x y : Run α} {f g : α → Run β}

/-- A run with too small a budget against one with enough: it stops for lack of budget, or it has
failed before in the same way. -/
def CutShort (x y : Run α) : Prop :=
  ∀ s, (∃ u, x s = .error (.error .nestingLimit) u) ∨
    ∃ halt u, x s = .error halt u ∧ y s = .error halt u

theorem cutShort_fail (y : Run α) : CutShort (fail .nestingLimit) y :=
  fun s => .inl ⟨s, rfl⟩

theorem CutShort.bind (h : CutShort x y) (f g : α → Run β) : CutShort (x >>= f) (y >>= g) := by
  intro s
  rcases h s with ⟨u, hx⟩ | ⟨halt, u, hx, hy⟩
  · exact .inl ⟨u, bind_of_error hx⟩
  · exact .inr ⟨halt, u, bind_of_error hx, bind_of_error hy⟩

/-- What comes before is the same on both sides; only where it has a value does the rest matter. -/
theorem CutShort.after (x : Run α) (h : ∀ a, CutShort (f a) (g a)) :
    CutShort (x >>= f) (x >>= g) := by
  intro s
  cases hx : x s with
  | error halt u => exact .inr ⟨halt, u, bind_of_error hx, bind_of_error hx⟩
  | ok a u =>
    rw [bind_of_ok hx, bind_of_ok hx]
    exact h a u

theorem CutShort.ne_ok (h : CutShort x y) {s u : State} {a : α} : x s ≠ .ok a u := by
  intro hx
  rcases h s with ⟨v, hshort⟩ | ⟨halt, v, hshort, -⟩ <;> cases hx.symm.trans hshort

end Run

namespace Expr

variable {invoke : Invocation} {frame : Frame} {budget : Int}

theorem eval_of_neg (e : Expr) (hbudget : budget < 0) :
    e.eval invoke frame budget = Run.fail .nestingLimit := by
  rw [eval.eq_def, if_pos hbudget]

theorem budget_of_eval_eq_ok {e : Expr} {s t : State} {v : Value}
    (h : e.eval invoke frame budget s = .ok v t) : ¬ budget < 0 := by
  intro hneg
  rw [eval_of_neg e hneg] at h
  exact Run.fail_ne_ok h

/-- Two budgets that both cover the nesting of an expression do the same. -/
theorem eval_eq_of_nesting_le (e : Expr) {other : Int} (hbudget : e.nesting ≤ budget)
    (hother : e.nesting ≤ other) : e.eval invoke frame budget = e.eval invoke frame other := by
  have hnonneg : ¬ budget < 0 := by omega
  have hnonneg' : ¬ other < 0 := by omega
  induction e generalizing budget other with
  | slice r start ih =>
    simp only [nesting] at hbudget hother
    have hstart : start.eval invoke frame (budget - 1) = start.eval invoke frame (other - 1) :=
      ih (by omega) (by omega) (by omega) (by omega)
    rw [eval, eval, if_neg hnonneg, if_neg hnonneg', hstart]
  | index r position ih =>
    simp only [nesting] at hbudget hother
    have hposition :
        position.eval invoke frame (budget - 1) = position.eval invoke frame (other - 1) :=
      ih (by omega) (by omega) (by omega) (by omega)
    rw [eval, eval, if_neg hnonneg, if_neg hnonneg', hposition]
  | remainder left right ihl ihr =>
    simp only [nesting] at hbudget hother
    have hleft : left.eval invoke frame budget = left.eval invoke frame other :=
      ihl (by omega) (by omega) hnonneg hnonneg'
    have hright : right.eval invoke frame budget = right.eval invoke frame other :=
      ihr (by omega) (by omega) hnonneg hnonneg'
    rw [eval, eval, if_neg hnonneg, if_neg hnonneg', hleft, hright]
  | _ => rw [eval, eval, if_neg hnonneg, if_neg hnonneg']

/-- With less than that a run is cut short. Of a remainder the left operand may still have enough;
then it goes as with any budget that is enough, and the right operand is cut short. -/
theorem cutShort_eval (e : Expr) (hbudget : budget < e.nesting) :
    Run.CutShort (e.eval invoke frame budget) (e.eval invoke frame e.nesting) := by
  induction e generalizing budget with
  | slice r start ih =>
    by_cases hneg : budget < 0
    · rw [eval_of_neg _ hneg]
      exact Run.cutShort_fail _
    · simp only [nesting] at hbudget ⊢
      have hstart : Run.CutShort (start.eval invoke frame (budget - 1))
          (start.eval invoke frame start.nesting) := ih (by omega)
      rw [eval, eval, if_neg hneg, if_neg (by omega)]
      refine Run.CutShort.after _ fun v => ?_
      rw [show (↑(start.nesting + 1) : Int) - 1 = start.nesting by omega]
      exact hstart.bind _ _
  | index r position ih =>
    by_cases hneg : budget < 0
    · rw [eval_of_neg _ hneg]
      exact Run.cutShort_fail _
    · simp only [nesting] at hbudget ⊢
      have hposition : Run.CutShort (position.eval invoke frame (budget - 1))
          (position.eval invoke frame position.nesting) := ih (by omega)
      rw [eval, eval, if_neg hneg, if_neg (by omega)]
      refine Run.CutShort.after _ fun v => Run.CutShort.after _ fun a => ?_
      rw [show (↑(position.nesting + 1) : Int) - 1 = position.nesting by omega]
      exact hposition.bind _ _
  | remainder left right ihl ihr =>
    by_cases hneg : budget < 0
    · rw [eval_of_neg _ hneg]
      exact Run.cutShort_fail _
    · simp only [nesting] at hbudget ⊢
      have hwhole : left.eval invoke frame ↑(max left.nesting right.nesting) =
          left.eval invoke frame left.nesting := eval_eq_of_nesting_le left (by omega) (by omega)
      have hright : right.eval invoke frame ↑(max left.nesting right.nesting) =
          right.eval invoke frame right.nesting :=
        eval_eq_of_nesting_le right (by omega) (by omega)
      rw [eval, eval, if_neg hneg, if_neg (by omega), hwhole, hright]
      by_cases hleft : budget < left.nesting
      · exact (ihl hleft).bind _ _
      · have henough : left.eval invoke frame budget = left.eval invoke frame left.nesting :=
          eval_eq_of_nesting_le left (by omega) (by omega)
        rw [henough]
        refine Run.CutShort.after _ fun v => Run.CutShort.after _ fun m => ?_
        exact (ihr (by omega)).bind _ _
  | _ =>
    rw [eval_of_neg _ (by simpa [nesting] using hbudget)]
    exact Run.cutShort_fail _

/-! ### Taking from the budget -/

/-- The value of an expression when it takes an operation of its own to have one less of the
budget. -/
def evalLowering (lower : Int → Run Int) (invoke : Invocation) (frame : Frame) (e : Expr)
    (budget : Int) : Run Value :=
  if budget < 0 then Run.fail .nestingLimit
  else match e with
  | .slice r start => do
    let v ← Run.ofExcept (frame.fetch r)
    let less ← lower budget
    let n ← Run.ofValue (← start.evalLowering lower invoke frame less).asInteger
    let s ← Run.reading fun h => do (← h.sequence v).suffix n
    Run.changing fun h => h.hold s
  | .index r position => do
    let a ← Run.ofValue (← Run.ofExcept (frame.fetch r)).asArray
    let less ← lower budget
    let n ← Run.ofValue (← position.evalLowering lower invoke frame less).asInteger
    Run.reading fun h => h.readAt a n
  | .remainder left right => do
    let m ← Run.ofValue (← left.evalLowering lower invoke frame budget).asInteger
    let n ← Run.ofValue (← right.evalLowering lower invoke frame budget).asInteger
    return .integer (← Run.ofValue (Value.remainder m n))
  | e => e.eval invoke frame budget

/-- It does not matter what the operation does below zero, or above the budget at the start: an
operation that goes wrong on the least number of 32 bits is as good as one that does not. -/
theorem evalLowering_eq {lower : Int → Run Int} (e : Expr) {most : Int}
    (hlower : ∀ n, 0 ≤ n → n ≤ most → lower n = pure (n - 1)) (hbudget : budget ≤ most) :
    e.evalLowering lower invoke frame budget = e.eval invoke frame budget := by
  induction e generalizing budget with
  | slice r start ih =>
    rw [evalLowering, eval]
    split
    · rfl
    · have hless : budget - 1 ≤ most := by omega
      simp only [hlower budget (by omega) hbudget, pure_bind, ih hless]
  | index r position ih =>
    rw [evalLowering, eval]
    split
    · rfl
    · have hless : budget - 1 ≤ most := by omega
      simp only [hlower budget (by omega) hbudget, pure_bind, ih hless]
  | remainder left right ihl ihr =>
    rw [evalLowering, eval, ihl hbudget, ihr hbudget]
  | _ =>
    rw [evalLowering.eq_def]
    split
    · rw [eval_of_neg _ ‹_›]
    · rfl

end Expr

def Shape.nesting : Shape → Nat
  | .slice _ inside | .index _ inside => (Expr.ofText inside).nesting + 1
  | .remainder left right => max (Expr.ofText left).nesting (Expr.ofText right).nesting
  | _ => 0

theorem Shape.nesting_toExpr (shape : Shape) : shape.toExpr.nesting = shape.nesting := by
  cases shape <;> rfl

namespace Run

/-- What the budget of an expression decides, for every text, frame and state. The nesting of the
text is counted shape by shape; a text without a shape has none. A budget that covers it does the
same as any other that does, up to the heap and what is compiled; only such a budget gives a value;
with less, the expression stops for lack of budget or fails as it would with enough. A call is made
the same way on any budget that is left, and nothing but a number from zero to the budget at the
start is ever taken one from: on 32 bits that never underflows. -/
theorem budget_measures_nesting (frame : Frame) (t : Text) (budget : Int) (s : State) :
    let nesting := (Expr.ofText t).nesting
    ((∀ shape, Shape.ofText t = .ok shape → nesting = shape.nesting) ∧
      ∀ reason, Shape.ofText t = .error reason → nesting = 0) ∧
    (nesting ≤ budget → ∀ other : Int, nesting ≤ other →
      expression frame budget t s = expression frame other t s) ∧
    (∀ v u, expression frame budget t s = .ok v u → nesting ≤ budget) ∧
    (budget < nesting →
      (∃ u, expression frame budget t s = .error (.error .nestingLimit) u) ∨
      ∃ halt u, expression frame budget t s = .error halt u ∧
        expression frame nesting t s = .error halt u) ∧
    (∀ f arguments, Shape.ofText t = .ok (.call f arguments) → 0 ≤ budget →
      expression frame budget t =
        callNamed Function.call f (arguments.mapM (Argument.eval frame))) ∧
    (∀ lower : Int → Run Int, (∀ n, 0 ≤ n → n ≤ 2147483647 → lower n = pure (n - 1)) →
      budget ≤ 2147483647 →
      (Expr.ofText t).evalLowering lower Function.call frame budget =
        expression frame budget t) := by
  intro nesting
  refine ⟨⟨fun shape hshape => ?_, fun reason hreason => ?_⟩, fun hbudget other hother => ?_,
    fun v u hvalue => ?_, fun hbudget => ?_, fun f arguments hshape hbudget => ?_,
    fun lower hlower hbudget => ?_⟩
  · rw [← shape.nesting_toExpr, ← Expr.ofText_of_shape hshape]
  · show (Expr.ofText t).nesting = 0
    rw [Expr.ofText_of_error hreason]
    rfl
  · exact congrFun (Expr.eval_eq_of_nesting_le _ hbudget hother) s
  · refine Int.not_lt.mp fun hless => ?_
    exact (Expr.cutShort_eval _ hless).ne_ok hvalue
  · exact Expr.cutShort_eval _ hbudget s
  · unfold expression
    rw [Expr.ofText_of_shape hshape, Shape.toExpr, Expr.eval, if_neg (by omega)]
    rfl
  · exact Expr.evalLowering_eq _ hlower hbudget

/-- An index in an index: two units are enough for a value, and so is any number above; one is not. -/
theorem budget_measures_nesting_twice :
    let t := "a[a[0]]".toList
    let frame : Frame := ⟨[(['a'], .array ⟨0⟩)]⟩
    let s : State := ⟨⟨#[[.integer 0]]⟩, .ofScript [] {}⟩
    (Expr.ofText t).nesting = 2 ∧ expression frame 2 t s = .ok (.integer 0) s ∧
      expression frame 2147483647 t s = .ok (.integer 0) s ∧
      ∃ u, expression frame 1 t s = .error (.error .nestingLimit) u := by
  intro t frame s
  have htree : Expr.ofText t = .index ['a'] (.index ['a'] (.integer 0)) := by decide +kernel
  have hnesting : (Expr.ofText t).nesting = 2 := by rw [htree]; rfl
  have htwo : expression frame 2 t s = .ok (.integer 0) s := by
    unfold expression
    rw [htree]
    rfl
  have henough := (budget_measures_nesting frame t 2 s).2.1 (by rw [hnesting]; decide) 2147483647
    (by rw [hnesting]; decide)
  have hshort := (budget_measures_nesting frame t 1 s).2.2.2.1 (by rw [hnesting]; decide)
  refine ⟨hnesting, htwo, henough.symm.trans htwo, hshort.resolve_right ?_⟩
  rintro ⟨halt, u, -, hfails⟩
  rw [hnesting] at hfails
  cases htwo.symm.trans hfails

end Run

end Scriptlet
