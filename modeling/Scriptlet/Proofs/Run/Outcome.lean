import Scriptlet.Statement

namespace Scriptlet

namespace Run

variable {α β : Type} {s t : State}

theorem bind_of_ok {x : Run α} {f : α → Run β} {a : α} (h : x s = .ok a t) :
    (x >>= f) s = f a t := by
  show EStateM.bind x f s = _
  simp only [EStateM.bind, h]

theorem bind_of_error {x : Run α} {f : α → Run β} {halt : Halt} (h : x s = .error halt t) :
    (x >>= f) s = .error halt t := by
  show EStateM.bind x f s = _
  simp only [EStateM.bind, h]

theorem bind_eq_ok {x : Run α} {f : α → Run β} {b : β} :
    (x >>= f) s = .ok b t ↔ ∃ a u, x s = .ok a u ∧ f a u = .ok b t := by
  cases hx : x s with
  | ok a u =>
    rw [bind_of_ok hx]
    constructor
    · intro h
      exact ⟨a, u, rfl, h⟩
    · rintro ⟨_, _, hsame, h⟩
      cases hsame
      exact h
  | error halt u =>
    rw [bind_of_error hx]
    simp

theorem pure_eq_ok {a b : α} : (pure a : Run α) s = .ok b t ↔ a = b ∧ s = t := by
  show EStateM.Result.ok a s = _ ↔ _
  simp

theorem fail_ne_ok {reason : Error} {a : α} : (fail reason : Run α) s ≠ .ok a t := by
  show EStateM.Result.error _ _ ≠ _
  simp

theorem ofExcept_eq_ok {r : Except Error α} {a : α} :
    ofExcept r s = .ok a t ↔ r = .ok a ∧ s = t := by
  cases r with
  | ok b => simp [ofExcept, pure_eq_ok]
  | error reason => simp [ofExcept, fail_ne_ok]

theorem ofValue_eq_ok {r : Except ValueError α} {a : α} :
    ofValue r s = .ok a t ↔ r = .ok a ∧ s = t := by
  cases r with
  | ok b => simp [ofValue, pure_eq_ok]
  | error reason => simp [ofValue, fail_ne_ok]

theorem reading_eq_ok {f : Heap → Except ValueError α} {a : α} :
    reading f s = .ok a t ↔ f s.heap = .ok a ∧ s = t :=
  ofValue_eq_ok

theorem changing_eq (f : Heap → α × Heap) (s : State) :
    changing f s = .ok (f s.heap).1 { s with heap := (f s.heap).2 } :=
  rfl

theorem resolve_eq (name : Text) (s : State) :
    resolve name s =
      ofExcept (s.context.resolve name).1 { s with context := (s.context.resolve name).2 } :=
  rfl

end Run

/-! ### Expressions and statements -/

variable {invoke : Invocation} {frame after : Frame} {budget : Int} {s t : State}

namespace Expr

variable {x : Text} {a : ArrayId} {v : Value} {n : Nat}

theorem eval_integer (hbudget : 0 ≤ budget) :
    (Expr.integer n).eval invoke frame budget s = .ok (.integer n) s := by
  rw [eval, if_neg (by omega)]
  rfl

/-- An element is read through any variable that holds the array. -/
theorem eval_index_of_readAt (hbudget : 1 ≤ budget) (hfetch : frame.fetch x = .ok (.array a))
    (hread : s.heap.readAt a n = .ok v) :
    (Expr.index x (.integer n)).eval invoke frame budget s = .ok v s := by
  have hposition : (Expr.integer n).eval invoke frame (budget - 1) s = .ok (.integer n) s :=
    eval_integer (by omega)
  rw [eval, if_neg (by omega)]
  refine Run.bind_eq_ok.mpr ⟨_, _, Run.ofExcept_eq_ok.mpr ⟨hfetch, rfl⟩, ?_⟩
  refine Run.bind_eq_ok.mpr ⟨a, _, Run.ofValue_eq_ok.mpr ⟨rfl, rfl⟩, ?_⟩
  refine Run.bind_eq_ok.mpr ⟨_, _, hposition, ?_⟩
  refine Run.bind_eq_ok.mpr ⟨n, _, Run.ofValue_eq_ok.mpr ⟨rfl, rfl⟩, ?_⟩
  exact Run.reading_eq_ok.mpr ⟨hread, rfl⟩

end Expr

namespace Statement

open Run

variable {target index value : Text} {w : Value}

theorem exec_assign_eq_ok :
    (assign target value).exec invoke frame budget s = .ok (w, after) t ↔
      (Expr.ofText value).eval invoke frame budget s = .ok w t ∧ frame.set target w = after := by
  simp only [exec, bind_eq_ok, pure_eq_ok, Prod.mk.injEq]
  constructor
  · rintro ⟨_, _, heval, ⟨rfl, rfl⟩, rfl⟩
    exact ⟨heval, rfl⟩
  · rintro ⟨heval, rfl⟩
    exact ⟨w, t, heval, ⟨rfl, rfl⟩, rfl⟩

theorem exec_result_eq_ok :
    (result value).exec invoke frame budget s = .ok (w, after) t ↔
      (Expr.ofText value).eval invoke frame budget s = .ok w t ∧ frame = after := by
  simp only [exec, bind_eq_ok, pure_eq_ok, Prod.mk.injEq]
  constructor
  · rintro ⟨_, _, heval, ⟨rfl, rfl⟩, rfl⟩
    exact ⟨heval, rfl⟩
  · rintro ⟨heval, rfl⟩
    exact ⟨w, t, heval, ⟨rfl, rfl⟩, rfl⟩

theorem exec_assignIndex_eq_ok :
    (assignIndex target index value).exec invoke frame budget s = .ok (w, after) t ↔
      frame = after ∧ ∃ a n u v,
        (Expr.ofText index).eval invoke frame budget s = .ok (.integer n) u ∧
        (Expr.ofText value).eval invoke frame budget u = .ok w v ∧
        frame.fetch target = .ok (.array a) ∧ v.heap.checkWrite a n w = .ok () ∧
        t = { v with heap := v.heap.put a n.toNat w } := by
  simp only [exec, bind_eq_ok, pure_eq_ok, ofValue_eq_ok, ofExcept_eq_ok, reading_eq_ok,
    changing_eq, Prod.mk.injEq]
  constructor
  · rintro ⟨position, u, hindex, n, _, ⟨hn, rfl⟩, _, v, hvalue, held, _, ⟨hfetch, rfl⟩, a, _,
      ⟨ha, rfl⟩, _, _, ⟨hcheck, rfl⟩, _, _, hput, ⟨rfl, rfl⟩, rfl⟩
    cases hput
    cases position <;> cases hn
    cases held <;> cases ha
    exact ⟨rfl, a, n, u, v, hindex, hvalue, hfetch, hcheck, rfl⟩
  · rintro ⟨rfl, a, n, u, v, hindex, hvalue, hfetch, hcheck, rfl⟩
    exact ⟨_, u, hindex, n, _, ⟨rfl, rfl⟩, w, v, hvalue, _, _, ⟨hfetch, rfl⟩, a, _, ⟨rfl, rfl⟩,
      _, _, ⟨hcheck, rfl⟩, _, _, rfl, ⟨rfl, rfl⟩, rfl⟩

end Statement

/-! ### Statements that bind variables in place -/

/-- A state together with the variables of the call that goes on in it. -/
structure Scope where
  state : State
  frame : Frame
  deriving DecidableEq, Repr

abbrev ScopedRun := EStateM Halt Scope

namespace ScopedRun

variable {α β : Type}

def looking (x : Frame → Run α) : ScopedRun α := fun s =>
  match x s.frame s.state with
  | .ok a t => .ok a { s with state := t }
  | .error halt t => .error halt { s with state := t }

def assign (target : Text) (v : Value) : ScopedRun Unit :=
  modify fun s => { s with frame := s.frame.set target v }

/-- A run that has at its end the variables that it gives, and binds none if it fails. -/
def settling (x : Frame → Run (α × Frame)) : ScopedRun α := fun s =>
  match x s.frame s.state with
  | .ok (a, frame) t => .ok a ⟨t, frame⟩
  | .error halt t => .error halt { s with state := t }

theorem settling_eq_ok {x : Frame → Run (α × Frame)} {s t : Scope} {a : α} :
    settling x s = .ok a t ↔ x s.frame s.state = .ok (a, t.frame) t.state := by
  unfold settling
  constructor
  · intro h
    split at h
    · cases h
      assumption
    · cases h
  · intro h
    rw [h]

/-- A run that fails leaves the variables as they were. -/
theorem settling_eq_error {x : Frame → Run (α × Frame)} {s t : Scope} {halt : Halt} :
    settling x s = .error halt t ↔
      x s.frame s.state = .error halt t.state ∧ t.frame = s.frame := by
  unfold settling
  constructor
  · intro h
    split at h
    · cases h
    · cases h
      exact ⟨by assumption, rfl⟩
  · rintro ⟨h, hframe⟩
    rw [h, ← hframe]

theorem settling_bind (x : Frame → Run α) (f : α → Frame → Run (β × Frame)) :
    (settling fun frame => x frame >>= fun a => f a frame) =
      looking x >>= fun a => settling (f a) := by
  funext s
  show settling (fun frame => EStateM.bind (x frame) fun a => f a frame) s =
    EStateM.bind (looking x) (fun a => settling (f a)) s
  simp only [settling, looking, EStateM.bind]
  cases x s.frame s.state <;> rfl

theorem settling_same (v : α) : (settling fun frame => pure (v, frame)) = pure v :=
  rfl

theorem settling_set (target : Text) (v : Value) :
    (settling fun frame => pure (v, frame.set target v)) = do assign target v; return v :=
  rfl

end ScopedRun

namespace Statement

open ScopedRun

/-- The effect of a statement, step by step on variables that are bound in place. -/
def execInPlace (invoke : Invocation) (budget : Int) : Statement → ScopedRun Value
  | .assign target value => do
    let v ← looking fun frame => (Expr.ofText value).eval invoke frame budget
    ScopedRun.assign target v
    return v
  | .assignIndex target index value => do
    let position ← looking fun frame => (Expr.ofText index).eval invoke frame budget
    let n ← looking fun _ => Run.ofValue position.asInteger
    let v ← looking fun frame => (Expr.ofText value).eval invoke frame budget
    let held ← looking fun frame => Run.ofExcept (frame.fetch target)
    let a ← looking fun _ => Run.ofValue held.asArray
    looking fun _ => Run.reading fun h => h.checkWrite a n v
    looking fun _ => Run.changing fun h => ((), h.put a n.toNat v)
    return v
  | .result value => looking fun frame => (Expr.ofText value).eval invoke frame budget

def execTextInPlace (invoke : Invocation) (budget : Int) (t : Text) : ScopedRun Value :=
  match ofText t with
  | .ok statement => statement.execInPlace invoke budget
  | .error reason => looking fun _ => Run.fail (.reading reason)

theorem execInPlace_eq (invoke : Invocation) (budget : Int) (statement : Statement) :
    statement.execInPlace invoke budget =
      settling fun frame => statement.exec invoke frame budget := by
  cases statement with
  | assign target value =>
    simp only [exec, execInPlace, settling_bind, settling_set]
  | assignIndex target index value =>
    simp only [exec, execInPlace, settling_bind, settling_same]
  | result value =>
    simp only [exec, execInPlace, settling_bind, settling_same, bind_pure]

theorem execTextInPlace_eq (invoke : Invocation) (budget : Int) (t : Text) :
    execTextInPlace invoke budget t = settling fun frame => execText invoke frame budget t := by
  unfold execTextInPlace execText
  cases ofText t with
  | ok statement => exact execInPlace_eq invoke budget statement
  | error reason => rfl

end Statement

def Run.statementInPlace (budget : Int) (t : Text) : ScopedRun Value :=
  Statement.execTextInPlace Function.call budget t

theorem Run.statementInPlace_eq (budget : Int) (t : Text) :
    Run.statementInPlace budget t =
      ScopedRun.settling fun frame => Run.statement frame budget t :=
  Statement.execTextInPlace_eq Function.call budget t

end Scriptlet
