import Scriptlet.Proofs.Expr.Literals
import Scriptlet.Proofs.Heap.Nesting
import Scriptlet.Proofs.Run.Replay
import Scriptlet.Proofs.Run.Rules
import Scriptlet.Proofs.Statement.Grammar

namespace Scriptlet

open Run

variable {R : Rules} {s t : State}

/-! ### Runs that only look -/

namespace Run

variable {α β : Type}

theorem finish_reading (f : Heap → Except ValueError α) (s : State) : (reading f).finish s = s := by
  show (ofValue (f s.heap)).finish s = s
  cases f s.heap <;> rfl

theorem finish_bind_of_still {x : Run α} {f : α → Run β} (hx : ∀ s, x.finish s = s)
    (hf : ∀ a s, (f a).finish s = s) (s : State) : (x >>= f).finish s = s := by
  have hstill := hx s
  cases hrun : x s with
  | ok a t =>
    rw [finish_of_ok hrun] at hstill
    rw [finish_bind_of_ok hrun, hf, hstill]
  | error halt t =>
    rw [finish_of_error hrun] at hstill
    rw [finish_bind_of_error hrun, hstill]

end Run

/-! ### Frames -/

namespace Frame

theorem mem_put {x : Text} {v : Value} {bindings : List (Text × Value)} {entry : Text × Value}
    (h : entry ∈ put x v bindings) : entry = (x, v) ∨ entry ∈ bindings := by
  induction bindings with
  | nil => simpa [put] using h
  | cons binding rest ih =>
    obtain ⟨y, w⟩ := binding
    rw [put] at h
    split at h
    · rcases List.mem_cons.mp h with rfl | h
      · exact .inl rfl
      · exact .inr (List.mem_cons_of_mem _ h)
    · rcases List.mem_cons.mp h with rfl | h
      · exact .inr List.mem_cons_self
      · exact (ih h).imp_right (List.mem_cons_of_mem _)

theorem tidy_set {frame : Frame} {x : Text} {v : Value} (h : R.Tidy frame) (hx : R.Binds x)
    (hv : R.Holds v) : R.Tidy (frame.set x v) := by
  intro entry hentry
  rcases mem_put hentry with rfl | hentry
  · exact ⟨hx, hv⟩
  · exact h entry hentry

theorem tidy_bindParams {function : Text} {params : List Text} {args : List Value}
    {frame bound : Frame} (h : R.Tidy frame) (hparams : ∀ x ∈ params, R.Binds x)
    (hargs : ∀ v ∈ args, R.Holds v) (hbound : bindParams function frame params args = .ok bound) :
    R.Tidy bound := by
  induction params generalizing frame args with
  | nil =>
    cases hbound
    exact h
  | cons param params ih =>
    obtain ⟨hparam, hrest⟩ := List.forall_mem_cons.mp hparams
    cases args with
    | nil => cases hbound
    | cons arg args =>
      obtain ⟨harg, hothers⟩ := List.forall_mem_cons.mp hargs
      exact ih (tidy_set h hparam harg) hrest hothers hbound

theorem mem_of_fetch {frame : Frame} {x : Text} {v : Value} (hv : frame.fetch x = .ok v) :
    (x, v) ∈ frame.bindings := by
  unfold fetch at hv
  split at hv <;> cases hv
  rename_i hlookup
  obtain ⟨before, after, hbindings, -⟩ := List.lookup_eq_some_iff.mp hlookup
  rw [hbindings]
  simp

theorem holds_fetch {frame : Frame} {x : Text} {v : Value} (h : R.Tidy frame)
    (hv : frame.fetch x = .ok v) : R.Holds v :=
  (h _ (mem_of_fetch hv)).2

theorem fails_fetch {frame : Frame} {x : Text} {reason : Error}
    (h : frame.fetch x = .error reason) : R.Fails reason := by
  unfold fetch at h
  split at h <;> cases h
  exact R.fails_other (by simp)

theorem fails_bindParams {function : Text} {params : List Text} {args : List Value} {frame : Frame}
    {reason : Error} (h : bindParams function frame params args = .error reason) :
    R.Fails reason := by
  induction params generalizing frame args with
  | nil => cases h
  | cons param params ih =>
    cases args with
    | nil =>
      cases h
      exact R.fails_other (by simp)
    | cons arg args => exact ih h

end Frame

/-! ### Steps of expressions -/

namespace Sequence

def AllHeld (R : Rules) : Sequence → Prop
  | .characters _ => True
  | .elements items => ∀ v ∈ items, R.Holds v

theorem allHeld_reverse {q : Sequence} (h : q.AllHeld R) : q.reverse.AllHeld R := by
  cases q with
  | characters t => trivial
  | elements items => exact fun v hv => h v (List.mem_reverse.mp hv)

theorem allHeld_suffix {q rest : Sequence} {start : Int} (h : q.AllHeld R)
    (hrest : q.suffix start = .ok rest) : rest.AllHeld R := by
  unfold suffix at hrest
  split at hrest
  · cases hrest
    cases q with
    | characters t => trivial
    | elements items => exact fun v hv => h v (List.mem_of_mem_drop hv)
  · cases hrest

theorem allHeld_singles (text : Text) : (singles text).AllHeld R := by
  intro v hv
  obtain ⟨c, -, rfl⟩ := List.mem_map.mp hv
  exact R.holds_text [c]

end Sequence

namespace Heap

theorem allHeld_sequence {v : Value} {q : Sequence} (h : R.Sound s)
    (hq : s.heap.sequence v = .ok q) : q.AllHeld R := by
  cases v <;> cases hq
  · trivial
  · exact h.elements _

theorem holds_readAt {a : ArrayId} {index : Int} {v : Value} (h : R.Sound s)
    (hv : s.heap.readAt a index = .ok v) : R.Holds v := by
  unfold readAt at hv
  dsimp only at hv
  split at hv
  · cases hv
  split at hv
  · rename_i w hw
    cases hv
    exact h.elements a _ (List.mem_of_getElem? hw)
  · cases hv

theorem obeys_sequence {v : Value} (h : R.Sound s) :
    R.Obeys s (Run.reading fun heap => heap.sequence v) [] (Sequence.AllHeld R) :=
  .reading h fun _ hq => allHeld_sequence h hq

theorem obeys_suffix {v : Value} {start : Int} (h : R.Sound s) :
    R.Obeys s (Run.reading fun heap => do (← heap.sequence v).suffix start) []
      (Sequence.AllHeld R) := by
  refine .reading h fun rest hrest => ?_
  cases hq : s.heap.sequence v with
  | error reason =>
    rw [hq] at hrest
    cases hrest
  | ok q =>
    rw [hq] at hrest
    exact Sequence.allHeld_suffix (allHeld_sequence h hq) hrest

/-- A new array holds nothing but what it is made of. -/
theorem obeys_hold {q : Sequence} (h : R.Sound s) (hq : q.AllHeld R) :
    R.Obeys s (Run.changing fun heap => heap.hold q) [] R.Holds := by
  cases q with
  | characters t => exact .changing h h.elements (R.holds_text t)
  | elements items =>
    refine .changing h (fun a v hv => ?_) (R.holds_array _)
    have hmade : v ∈ (s.heap.alloc items).2.elements a := hv
    rw [elements_alloc] at hmade
    split at hmade
    · exact hq v hmade
    · exact h.elements a v hmade

end Heap

namespace Argument

theorem holds_eval {frame : Frame} {argument : Argument} {v : Value} (hframe : R.Tidy frame)
    (hliteral : ∀ n ∈ argument.literal?, InRange n) (hv : argument.eval frame = .ok v) :
    R.Holds v := by
  cases argument with
  | integer n =>
    cases hv
    exact R.holds_literal (hliteral n rfl)
  | name x => exact Frame.holds_fetch hframe hv

theorem fails_eval {frame : Frame} {argument : Argument} {reason : Error}
    (h : argument.eval frame = .error reason) : R.Fails reason := by
  cases argument with
  | integer n => cases h
  | name x => exact Frame.fails_fetch h

theorem obeys_arguments {frame : Frame} {arguments : List Argument} (h : R.Sound s)
    (hframe : R.Tidy frame) (hliterals : ∀ n ∈ arguments.filterMap literal?, InRange n) :
    R.Obeys s (Run.ofExcept (arguments.mapM (Argument.eval frame))) []
      (fun args => ∀ v ∈ args, R.Holds v) := by
  refine .ofExcept h (fun args hargs => ?_) (fun reason hreason => ?_)
  · intro v hv
    obtain ⟨argument, hargument, hvalue⟩ := (mem_of_mapM_eq_ok hargs).2 v hv
    refine holds_eval hframe (fun n hn => ?_) hvalue
    exact hliterals n (List.mem_filterMap.mpr ⟨argument, hargument, hn⟩)
  · obtain ⟨_, _, _, _, _, _, hbad⟩ := mapM_eq_error_iff.mp hreason
    exact fails_eval hbad

end Argument

/-! ### Expressions -/

def Run.Rules.ObeyedByCalls (R : Rules) (invoke : Invocation) (within : CallMoments) : Prop :=
  ∀ {f args s}, R.Sound s → R.Calls f → (∀ v ∈ args, R.Holds v) →
    R.Obeys s (invoke f args) (within f args s) R.Holds

section Calls

variable {invoke : Invocation} {within : CallMoments} {frame : Frame} {budget : Int}

namespace Expr

theorem obeys_fetch {x : Text} (h : R.Sound s) (hframe : R.Tidy frame) :
    R.Obeys s (Run.ofExcept (frame.fetch x)) [] R.Holds :=
  .ofExcept h (fun _ hv => Frame.holds_fetch hframe hv) fun _ hreason => Frame.fails_fetch hreason

theorem obeys_ofValue {α : Type} {r : Except ValueError α} (h : R.Sound s) :
    R.Obeys s (Run.ofValue r) [] (fun _ => True) :=
  .ofValue h fun _ _ => trivial

theorem obeys_asInteger {v : Value} (h : R.Sound s) (hv : R.Holds v) :
    R.Obeys s (Run.ofValue v.asInteger) [] (fun n => R.Holds (.integer n)) := by
  refine .ofValue h fun n hn => ?_
  cases v <;> cases hn
  exact hv

/-- What an expression does within its budget decides; without any it does nothing. -/
theorem obeys_guarded {x : Run Value} {parts : List Scope} {Result : Value → Prop} (h : R.Sound s)
    (hframe : R.Tidy frame) (hx : R.Obeys s x parts Result) :
    let guarded : Run Value := if budget < 0 then Run.fail .nestingLimit else x
    R.Obeys s guarded ((if budget < 0 then [] else parts) ++ [⟨guarded.finish s, frame⟩]) Result := by
  apply Run.Rules.Obeys.noted hframe
  split
  · exact .fail h (R.fails_other (by simp))
  · exact hx

/-- Looking at a length changes nothing, so the moment at which the expression ends is the one at which
the length is taken. -/
theorem finish_eval_length (r : Text) (s : State) :
    ((Expr.length r).eval invoke frame budget).finish s = s := by
  rw [eval]
  split
  · rfl
  · refine finish_bind_of_still (finish_ofExcept _) (fun v => ?_) s
    exact finish_bind_of_still (finish_reading _) fun n s => rfl

/-- The number that a length is, is bounded by what is assumed of that moment. -/
theorem obeys_length {r : Text} (h : R.Sound s) (hframe : R.Tidy frame) :
    R.Obeys s ((Expr.length r).eval invoke frame budget)
      ((Expr.length r).moments invoke within frame budget s) R.Holds := by
  have hrun : R.Obeys s ((Expr.length r).eval invoke frame budget)
      ((Expr.length r).moments invoke within frame budget s)
      (fun w => ∃ v n, frame.fetch r = .ok v ∧ s.heap.length v = .ok n ∧ w = .integer n) := by
    rw [moments, eval]
    refine obeys_guarded h hframe ?_
    cases hfetch : frame.fetch r with
    | error reason =>
      have hfail : R.Fails reason := Frame.fails_fetch hfetch
      exact ⟨trivial, (Run.Rules.Obeys.fail h hfail).ends⟩
    | ok v =>
      have hlooks : R.Obeys s (Run.reading fun heap => heap.length v) []
          (fun n => s.heap.length v = .ok n) := .reading h fun _ hn => hn
      have hvalue : R.Obeys s
          (do return Value.integer (← Run.reading fun heap => heap.length v)) []
          (fun w => ∃ v' n, (Except.ok v : Except Error Value) = .ok v' ∧
            s.heap.length v' = .ok n ∧ w = .integer n) :=
        hlooks.andThen fun h hn => .pure h ⟨v, _, rfl, hn, rfl⟩
      exact ⟨trivial, hvalue.ends⟩
  have hmoment : (⟨s, frame⟩ : Scope) ∈ (Expr.length r).moments invoke within frame budget s := by
    rw [moments, finish_eval_length]
    simp
  refine hrun.imp hmoment fun hassumed w hw => ?_
  obtain ⟨v, n, hfetch, hlength, rfl⟩ := hw
  exact R.holds_length hassumed hfetch hlength

/-- An expression keeps to the rules, by the shape of the tree; what is new in its value is a number
that is written in it, a remainder or a length, and an array of it holds what was held before. -/
theorem obeys_eval (hcalls : R.ObeyedByCalls invoke within) (e : Expr)
    (hliterals : ∀ n ∈ e.literals, InRange n) (h : R.Sound s) (hframe : R.Tidy frame) :
    R.Obeys s (e.eval invoke frame budget) (e.moments invoke within frame budget s) R.Holds := by
  induction e generalizing budget s with
  | integer n =>
    rw [moments, eval]
    apply obeys_guarded h hframe
    exact .pure h (R.holds_literal (hliterals n (by simp [literals])))
  | name x =>
    rw [moments, eval]
    apply obeys_guarded h hframe
    exact obeys_fetch h hframe
  | split r =>
    rw [moments, eval]
    apply obeys_guarded h hframe
    refine (obeys_fetch h hframe).andThen fun h _ => ?_
    refine (obeys_ofValue h).andThen fun h _ => ?_
    exact Heap.obeys_hold h (Sequence.allHeld_singles _)
  | join r =>
    rw [moments, eval]
    apply obeys_guarded h hframe
    refine (obeys_fetch h hframe).andThen fun h _ => ?_
    refine (obeys_ofValue h).andThen fun h _ => ?_
    refine (Run.Rules.Obeys.reading h fun _ _ => trivial).andThen fun h _ => ?_
    exact .pure h (R.holds_text _)
  | length r => exact obeys_length h hframe
  | reverse r =>
    rw [moments, eval]
    apply obeys_guarded h hframe
    refine (obeys_fetch h hframe).andThen fun h _ => ?_
    refine (Heap.obeys_sequence h).andThen fun h hq => ?_
    exact Heap.obeys_hold h (Sequence.allHeld_reverse hq)
  | slice r start ih =>
    rw [moments, eval]
    apply obeys_guarded h hframe
    refine (obeys_fetch h hframe).before fun h _ => ?_
    refine (ih hliterals h).andThen fun h hv => ?_
    refine (obeys_asInteger h hv).andThen fun h _ => ?_
    refine (Heap.obeys_suffix h).andThen fun h hq => ?_
    exact Heap.obeys_hold h hq
  | index r position ih =>
    rw [moments, eval]
    apply obeys_guarded h hframe
    refine (obeys_fetch h hframe).before fun h _ => ?_
    refine (obeys_ofValue h).before fun h _ => ?_
    refine (ih hliterals h).andThen fun h hv => ?_
    refine (obeys_asInteger h hv).andThen fun h _ => ?_
    exact .reading h fun _ hv => Heap.holds_readAt h hv
  | remainder left right ihl ihr =>
    have hleft : ∀ n ∈ left.literals, InRange n := fun n hn => hliterals n (by simp [literals, hn])
    have hright : ∀ n ∈ right.literals, InRange n := fun n hn => hliterals n (by simp [literals, hn])
    rw [moments, eval]
    apply obeys_guarded h hframe
    refine (ihl hleft h).bind fun h hv => ?_
    refine (obeys_asInteger h hv).before fun h hm => ?_
    refine (ihr hright h).andThen fun h hw => ?_
    refine (obeys_asInteger h hw).andThen fun h _ => ?_
    refine (Run.Rules.Obeys.ofValue h fun _ hr => R.holds_remainder hm hr).andThen fun h hr => ?_
    exact .pure h hr
  | call f arguments =>
    rw [moments, eval]
    apply obeys_guarded h hframe
    refine (Run.Rules.Obeys.resolve h).before fun h hcallee => ?_
    refine (Argument.obeys_arguments h hframe hliterals).before fun h hargs => ?_
    exact hcalls h hcallee hargs
  | malformed reason =>
    rw [moments, eval]
    apply obeys_guarded h hframe
    exact .fail h (R.fails_other (by simp))

theorem obeys_evalText (hcalls : R.ObeyedByCalls invoke within) (text : Text) (h : R.Sound s)
    (hframe : R.Tidy frame) :
    R.Obeys s ((ofText text).eval invoke frame budget)
      ((ofText text).moments invoke within frame budget s) R.Holds :=
  obeys_eval hcalls _ (fun _ hn => inRange_of_mem_literals hn) h hframe

end Expr

/-! ### Statements and calls -/

namespace Statement

/-- What a statement leaves behind: a value and a frame that are as they may be. -/
def Leaves (R : Rules) (after : Value × Frame) : Prop :=
  R.Holds after.1 ∧ R.Tidy after.2

/-- The moment after a statement may be added to the others; its frame is the one that the statement
leaves behind, or the old one if it has failed. -/
theorem obeys_noted {x : Run (Value × Frame)} {parts : List Scope} (hframe : R.Tidy frame)
    (h : R.Obeys s x parts (Leaves R)) :
    R.Obeys s x (parts ++ [momentAfter frame x s]) (Leaves R) := by
  refine ⟨h.upheld.snoc fun hgiven _ => ?_, fun hgiven => h.ends (List.forall_mem_append.mp hgiven).1⟩
  have hends := h.ends hgiven
  unfold momentAfter
  cases hrun : x s with
  | ok after t =>
    rw [hrun] at hends
    exact ⟨hends.2.2, hends.1⟩
  | error halt t =>
    rw [hrun] at hends
    exact ⟨hframe, hends.1⟩

/-- The last part of an indexed assignment: the check of the write, and the write. -/
theorem obeys_write {a : ArrayId} {index : Int} {v : Value} (h : R.Sound s) (hframe : R.Tidy frame)
    (hv : R.Holds v) :
    R.Obeys s
      (do
        Run.reading fun heap => heap.checkWrite a index v
        Run.changing fun heap => ((), heap.put a index.toNat v)
        return (v, frame))
      [] (Leaves R) := by
  refine (Run.Rules.Obeys.reading h fun _ _ => trivial).andThen fun {_ t} h _ => ?_
  have helements : ∀ b, ∀ w ∈ (t.heap.put a index.toNat v).elements b, R.Holds w := by
    intro b w hw
    rcases Heap.mem_elements_put hw with hold | ⟨-, rfl⟩
    · exact h.elements b w hold
    · exact hv
  have hwrites : R.Obeys t (Run.changing fun heap => ((), heap.put a index.toNat v)) []
      (fun _ => True) := .changing h helements trivial
  exact hwrites.andThen fun h _ => .pure h ⟨hv, hframe⟩

/-- A statement binds no other names than targets, which are in lowercase letters. -/
theorem obeys_exec (hcalls : R.ObeyedByCalls invoke within) {text : Text} {statement : Statement}
    (hread : ofText text = .ok statement) (h : R.Sound s) (hframe : R.Tidy frame) :
    R.Obeys s (statement.exec invoke frame budget) (statement.moments invoke within frame budget s)
      (Leaves R) := by
  cases statement with
  | assign target value =>
    have htarget : R.Binds target := R.binds_lower (ofText_eq_ok_iff.mp hread).2.1
    rw [moments, exec]
    apply obeys_noted hframe
    refine (Expr.obeys_evalText hcalls value h hframe).andThen fun h hv => ?_
    exact .pure h ⟨hv, Frame.tidy_set hframe htarget hv⟩
  | assignIndex target index value =>
    rw [moments, exec]
    apply obeys_noted hframe
    refine (Expr.obeys_evalText hcalls index h hframe).bind fun h hv => ?_
    refine (Expr.obeys_asInteger h hv).before fun h _ => ?_
    refine (Expr.obeys_evalText hcalls value h hframe).andThen fun h hv => ?_
    refine (Expr.obeys_fetch h hframe).andThen fun h _ => ?_
    refine (Expr.obeys_ofValue h).andThen fun h _ => ?_
    exact obeys_write h hframe hv
  | result value =>
    rw [moments, exec]
    apply obeys_noted hframe
    refine (Expr.obeys_evalText hcalls value h hframe).andThen fun h hv => ?_
    exact .pure h ⟨hv, hframe⟩

theorem obeys_execText (hcalls : R.ObeyedByCalls invoke within) (text : Text) (h : R.Sound s)
    (hframe : R.Tidy frame) :
    R.Obeys s (execText invoke frame budget text) (momentsOfText invoke within frame budget text s)
      (Leaves R) := by
  unfold execText momentsOfText
  cases hread : ofText text with
  | ok statement => exact obeys_exec hcalls hread h hframe
  | error reason => exact .fail h (R.fails_other (by simp))

end Statement

/-- Statements have a value if there is one of them at all. -/
theorem Function.obeys_runStatements (hcalls : R.ObeyedByCalls invoke within)
    (statements : List Text) {last : Option Value} (h : R.Sound s) (hframe : R.Tidy frame)
    (hlast : ∀ v ∈ last, R.Holds v) :
    R.Obeys s (runStatements invoke budget frame last statements)
      (momentsOfStatements invoke within budget frame statements s)
      (fun result => (∀ v ∈ result, R.Holds v) ∧
        (result = none → last = none ∧ statements = [])) := by
  induction statements generalizing s frame last with
  | nil => exact .pure h ⟨hlast, fun hnone => ⟨hnone, rfl⟩⟩
  | cons text rest ih =>
    refine (Statement.obeys_execText hcalls text h hframe).bind fun {after t} h hafter => ?_
    have hsome : ∀ v ∈ some after.1, R.Holds v := by
      rintro v ⟨⟩
      exact hafter.1
    refine (ih h hafter.2 hsome).mono fun result hresult => ⟨hresult.1, fun hnone => ?_⟩
    cases (hresult.2 hnone).1

end Calls

namespace Function

/-- Calls nested in a call are calls to a smaller depth: the induction is on it. -/
theorem obeys_invoke (depth : Nat) : R.ObeyedByCalls (invoke depth) (momentsOfInvoke depth) := by
  induction depth with
  | zero =>
    intro f args s h _ _
    exact .tooDeep h
  | succ depth ih =>
    intro f args s h hf hargs
    rw [momentsOfInvoke, invoke]
    have hbound : R.Obeys s (Run.ofExcept (Frame.ofCall f args)) [] R.Tidy := by
      refine .ofExcept h (fun frame hframe => ?_) fun reason => Frame.fails_bindParams
      exact Frame.tidy_bindParams (fun _ hentry => by cases hentry) (R.binds_param hf) hargs hframe
    refine hbound.before fun h hframe => .begun h hframe ?_
    refine (Run.Rules.Obeys.limits h).before fun h _ => ?_
    refine (obeys_runStatements ih f.statements h hframe (by simp)).andThen fun {result t} h hv => ?_
    cases result with
    | some v => exact .pure h (hv.1 v rfl)
    | none => exact .fail h (R.fails_emptyBody hf (hv.2 rfl).2)

theorem obeys_call : R.ObeyedByCalls call moments := by
  intro f args s h hf hargs
  unfold call moments
  exact (Run.Rules.Obeys.limits h).before fun h _ => obeys_invoke _ h hf hargs

end Function

namespace Run

variable {frame : Frame}

theorem obeys_statement (budget : Int) (text : Text) (h : R.Sound s) (hframe : R.Tidy frame) :
    R.Obeys s (statement frame budget text) (momentsOfStatement frame budget text s)
      (Statement.Leaves R) :=
  Statement.obeys_execText Function.obeys_call text h hframe

theorem obeys_expression (budget : Int) (text : Text) (h : R.Sound s) (hframe : R.Tidy frame) :
    R.Obeys s (expression frame budget text) (momentsOfExpression frame budget text s) R.Holds :=
  Expr.obeys_evalText Function.obeys_call text h hframe

end Run

end Scriptlet
