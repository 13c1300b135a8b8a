import Scriptlet.Proofs.Each
import Scriptlet.Proofs.Run.Invariant

/-!
Every run keeps every invariant: expressions by their shape, statements, bodies and calls, the last
by induction on how deep calls may still nest. Each lemma also follows the trace of the run, so what
holds at the end of a run holds at every point on the way.
-/

namespace Scriptlet

open Run

def Frame.Held (I : Invariant) (s : State) (frame : Frame) : Prop :=
  ∀ x v, frame.get? x = some v → I.Held s v

def Sequence.Held (I : Invariant) (s : State) : Sequence → Prop
  | .characters _ => True
  | .elements items => ∀ v ∈ items, I.Held s v

variable {I : Invariant} {s t : State}

namespace Frame

theorem Held.later {frame : Frame} (h : frame.Held I s) (hlater : I.Later s t) :
    frame.Held I t := by
  intro x v hx
  exact I.held_later hlater (h x v hx)

theorem Held.set {frame : Frame} {v : Value} (h : frame.Held I s) (x : Text) (hv : I.Held s v) :
    (frame.set x v).Held I s := by
  intro y w hy
  rw [get?_set] at hy
  split at hy
  · cases hy
    exact hv
  · exact h y w hy

theorem Held.fetch {frame : Frame} {x : Text} {v : Value} (h : frame.Held I s)
    (hv : frame.fetch x = .ok v) : I.Held s v := by
  unfold Frame.fetch at hv
  split at hv
  · rename_i w hw
    cases hv
    exact h x v hw
  · cases hv

theorem held_bindParams {function : Text} {frame bound : Frame} {params : List Text}
    {args : List Value} (h : frame.Held I s) (hargs : ∀ v ∈ args, I.Held s v)
    (hbound : bindParams function frame params args = .ok bound) : bound.Held I s := by
  induction params generalizing frame args with
  | nil =>
    cases hbound
    exact h
  | cons param params ih =>
    cases args with
    | nil => cases hbound
    | cons arg args =>
      have hset := h.set param (hargs arg (by simp))
      have hrest : ∀ v ∈ args, I.Held s v := fun v hv => hargs v (by simp [hv])
      exact ih hset hrest hbound

/-- The frame of a call holds the arguments. -/
theorem held_ofCall {f : Function} {args : List Value} {frame : Frame}
    (hargs : ∀ v ∈ args, I.Held s v) (hframe : ofCall f args = .ok frame) : frame.Held I s := by
  have hempty : (Frame.mk []).Held I s := by
    intro x v hx
    cases hx
  exact held_bindParams hempty hargs hframe

end Frame

namespace Sequence

theorem Held.reverse {q : Sequence} (h : q.Held I s) : q.reverse.Held I s := by
  cases q with
  | characters t => trivial
  | elements items =>
    intro v hv
    exact h v (by simpa using hv)

theorem Held.suffix {q rest : Sequence} {start : Int} (h : q.Held I s)
    (hrest : q.suffix start = .ok rest) : rest.Held I s := by
  unfold Sequence.suffix at hrest
  split at hrest
  · cases hrest
    cases q with
    | characters t => trivial
    | elements items =>
      intro v hv
      exact h v (List.mem_of_mem_drop hv)
  · cases hrest

theorem held_singles (text : Text) : (singles text).Held I s := by
  intro v hv
  obtain ⟨c, -, rfl⟩ := List.mem_map.mp hv
  exact I.held_scalar rfl

end Sequence

namespace Value

theorem held_asArray {v : Value} {a : ArrayId} (h : I.Held s v) (ha : v.asArray = .ok a) :
    I.Held s (.array a) := by
  cases v <;> cases ha
  exact h

end Value

namespace Heap

theorem held_sequence {v : Value} {q : Sequence} (h : I.Holds s) (hv : I.Held s v)
    (hq : s.heap.sequence v = .ok q) : q.Held I s := by
  cases v <;> cases hq
  · trivial
  · intro w hw
    exact I.held_element h hv hw

theorem held_readAt {a : ArrayId} {index : Int} {v : Value} (h : I.Holds s)
    (ha : I.Held s (.array a)) (hv : s.heap.readAt a index = .ok v) : I.Held s v := by
  unfold Heap.readAt at hv
  simp only at hv
  split at hv
  · cases hv
  · split at hv
    · rename_i w hw
      cases hv
      exact I.held_element h ha (List.mem_of_getElem? hw)
    · cases hv

theorem keeps_sequence {v : Value} (h : I.Holds s) (hv : I.Held s v) :
    I.Keeps s (Run.reading fun heap => heap.sequence v) [] (fun t q => q.Held I t) :=
  .reading h fun _ hq => held_sequence h hv hq

theorem keeps_suffix {v : Value} {start : Int} (h : I.Holds s) (hv : I.Held s v) :
    I.Keeps s (Run.reading fun heap => do (← heap.sequence v).suffix start) []
      (fun t q => q.Held I t) := by
  apply Run.Invariant.Keeps.reading h
  intro rest hrest
  cases hq : s.heap.sequence v with
  | error reason =>
    rw [hq] at hrest
    cases hrest
  | ok q =>
    rw [hq] at hrest
    exact (held_sequence h hv hq).suffix hrest

/-- Holding a sequence keeps the invariant, whether or not it makes an array. -/
theorem keeps_hold {q : Sequence} (h : I.Holds s) (hq : q.Held I s) :
    I.Keeps s (Run.changing fun heap => heap.hold q) [] I.Held := by
  cases q with
  | characters t => exact .changing h (I.later_refl s) (I.held_scalar rfl)
  | elements items =>
    obtain ⟨hholds, hlater, hheld⟩ := I.make h hq
    exact .changing hholds hlater hheld

end Heap

namespace Argument

theorem held_eval {frame : Frame} {argument : Argument} {v : Value} (hframe : frame.Held I s)
    (hv : argument.eval frame = .ok v) : I.Held s v := by
  cases argument with
  | integer n =>
    cases hv
    exact I.held_scalar rfl
  | name x => exact hframe.fetch hv

theorem held_mapM {frame : Frame} {arguments : List Argument} {args : List Value}
    (hframe : frame.Held I s) (hargs : arguments.mapM (Argument.eval frame) = .ok args) :
    ∀ v ∈ args, I.Held s v := by
  intro v hv
  obtain ⟨argument, -, hvalue⟩ := (mem_of_mapM_eq_ok hargs).2 v hv
  exact held_eval hframe hvalue

end Argument

def Run.Invariant.KeptByCalls (I : Invariant) (invoke : Invocation) (within : CallTrace) : Prop :=
  ∀ {f args s}, I.Holds s → (∀ v ∈ args, I.Held s v) →
    I.Keeps s (invoke f args) (within f args s) I.Held

section Calls

variable {invoke : Invocation} {within : CallTrace} {frame : Frame} {budget : Int}

namespace Expr

theorem keeps_fetch {x : Text} (h : I.Holds s) (hframe : frame.Held I s) :
    I.Keeps s (Run.ofExcept (frame.fetch x)) [] I.Held :=
  .ofExcept h fun _ hv => hframe.fetch hv

theorem keeps_asArray {v : Value} (h : I.Holds s) (hv : I.Held s v) :
    I.Keeps s (Run.ofValue v.asArray) [] (fun t a => I.Held t (.array a)) :=
  .ofValue h fun _ ha => Value.held_asArray hv ha

theorem keeps_asInteger {v : Value} (h : I.Holds s) :
    I.Keeps s (Run.ofValue v.asInteger) [] (fun _ _ => True) :=
  .ofValue h fun _ _ => trivial

theorem keeps_arguments {arguments : List Argument} (h : I.Holds s) (hframe : frame.Held I s) :
    I.Keeps s (Run.ofExcept (arguments.mapM (Argument.eval frame))) []
      (fun t args => ∀ v ∈ args, I.Held t v) :=
  .ofExcept h fun _ hargs => Argument.held_mapM hframe hargs

/-- What an expression does within its budget decides; without any it does nothing. -/
theorem keeps_guarded {x : Run Value} {parts : List State} (h : I.Holds s)
    (hx : I.Keeps s x parts I.Held) :
    let guarded : Run Value := if budget < 0 then Run.fail .nestingLimit else x
    I.Keeps s guarded ((if budget < 0 then [] else parts) ++ [guarded.finish s]) I.Held := by
  apply Run.Invariant.Keeps.noted
  split
  · exact .fail h
  · exact hx

/-- An expression keeps the invariant, by the shape of the tree; its own part in it is a read, a
new array or a call. -/
theorem keeps_eval (hcalls : I.KeptByCalls invoke within) (e : Expr) (h : I.Holds s)
    (hframe : frame.Held I s) :
    I.Keeps s (e.eval invoke frame budget) (e.trace invoke within frame budget s) I.Held := by
  induction e generalizing budget s with
  | integer n =>
    rw [trace, eval]
    apply keeps_guarded h
    exact .pure h (I.held_scalar rfl)
  | name x =>
    rw [trace, eval]
    apply keeps_guarded h
    exact keeps_fetch h hframe
  | split r =>
    rw [trace, eval]
    apply keeps_guarded h
    refine (keeps_fetch h hframe).andThen fun h _ hv => ?_
    refine (Run.Invariant.Keeps.ofValue_any h).andThen fun h _ _ => ?_
    exact Heap.keeps_hold h (Sequence.held_singles _)
  | join r =>
    rw [trace, eval]
    apply keeps_guarded h
    refine (keeps_fetch h hframe).andThen fun h _ hv => ?_
    refine (keeps_asArray h hv).andThen fun h _ ha => ?_
    refine (Run.Invariant.Keeps.reading_any h).andThen fun h _ _ => ?_
    exact .pure h (I.held_scalar rfl)
  | length r =>
    rw [trace, eval]
    apply keeps_guarded h
    refine (keeps_fetch h hframe).andThen fun h _ hv => ?_
    refine (Run.Invariant.Keeps.reading_any h).andThen fun h _ _ => ?_
    exact .pure h (I.held_scalar rfl)
  | reverse r =>
    rw [trace, eval]
    apply keeps_guarded h
    refine (keeps_fetch h hframe).andThen fun h _ hv => ?_
    refine (Heap.keeps_sequence h hv).andThen fun h _ hq => ?_
    exact Heap.keeps_hold h hq.reverse
  | slice r start ih =>
    rw [trace, eval]
    apply keeps_guarded h
    refine (keeps_fetch h hframe).before fun h hlater hv => ?_
    refine (ih h (hframe.later hlater)).andThen fun h hlater _ => ?_
    refine (keeps_asInteger h).andThen fun h hlast _ => ?_
    have hv := I.held_later (I.later_trans hlater hlast) hv
    refine (Heap.keeps_suffix h hv).andThen fun h _ hq => ?_
    exact Heap.keeps_hold h hq
  | index r position ih =>
    rw [trace, eval]
    apply keeps_guarded h
    refine (keeps_fetch h hframe).before fun h hlater hv => ?_
    refine (keeps_asArray h hv).before fun h hnext ha => ?_
    refine (ih h (hframe.later (I.later_trans hlater hnext))).andThen fun h hlater _ => ?_
    refine (keeps_asInteger h).andThen fun h hlast _ => ?_
    have ha := I.held_later (I.later_trans hlater hlast) ha
    exact .reading h fun v hv => Heap.held_readAt h ha hv
  | remainder left right ihl ihr =>
    rw [trace, eval]
    apply keeps_guarded h
    refine (ihl h hframe).bind fun h hleft _ => ?_
    refine (keeps_asInteger h).before fun h hnext _ => ?_
    have hframe := hframe.later (I.later_trans hleft hnext)
    refine (ihr h hframe).andThen fun h _ _ => ?_
    refine (keeps_asInteger h).andThen fun h _ _ => ?_
    refine (Run.Invariant.Keeps.ofValue_any h).andThen fun h _ _ => ?_
    exact .pure h (I.held_scalar rfl)
  | call f arguments =>
    rw [trace, eval]
    apply keeps_guarded h
    refine (Run.Invariant.Keeps.resolve h).before fun h hlater _ => ?_
    have hframe := hframe.later hlater
    refine (keeps_arguments h hframe).before fun h _ hargs => ?_
    exact hcalls h hargs
  | malformed reason =>
    rw [trace, eval]
    apply keeps_guarded h
    exact .fail h

end Expr

namespace Statement

/-- The last part of an indexed assignment: the check of the write, and the write. -/
theorem keeps_write {a : ArrayId} {index : Int} {v : Value} (h : I.Holds s)
    (hframe : frame.Held I s) (ha : I.Held s (.array a)) (hv : I.Held s v) :
    I.Keeps s
      (do
        Run.reading fun heap => heap.checkWrite a index v
        Run.changing fun heap => ((), heap.put a index.toNat v)
        return (v, frame))
      [] (fun t after => I.Held t after.1 ∧ after.2.Held I t) := by
  have hcheck : I.Keeps s (Run.reading fun heap => heap.checkWrite a index v) []
      (fun t _ => t.heap.checkWrite a index v = .ok ()) := .reading h fun _ hok => hok
  refine hcheck.andThen fun h hchecked hok => ?_
  obtain ⟨hholds, hlater⟩ :=
    I.write h (I.held_later hchecked ha) (I.held_later hchecked hv) hok
  refine (Run.Invariant.Keeps.changing_any hholds hlater).andThen fun h hwritten _ => ?_
  have hall := I.later_trans hchecked hwritten
  exact .pure h ⟨I.held_later hall hv, hframe.later hall⟩

/-- An indexed assignment writes to an array that the frame holds, after the check of the write. -/
theorem keeps_exec (hcalls : I.KeptByCalls invoke within) (statement : Statement)
    (h : I.Holds s) (hframe : frame.Held I s) :
    I.Keeps s (statement.exec invoke frame budget)
      (statement.trace invoke within frame budget s)
      (fun t after => I.Held t after.1 ∧ after.2.Held I t) := by
  cases statement with
  | assign target value =>
    rw [trace, exec]
    apply Run.Invariant.Keeps.noted
    refine (Expr.keeps_eval hcalls _ h hframe).andThen fun h hlater hv => ?_
    exact .pure h ⟨hv, (hframe.later hlater).set target hv⟩
  | assignIndex target index value =>
    rw [trace, exec]
    apply Run.Invariant.Keeps.noted
    refine (Expr.keeps_eval hcalls _ h hframe).bind fun h hindex _ => ?_
    refine (Expr.keeps_asInteger h).before fun h hnext _ => ?_
    have hframe := hframe.later (I.later_trans hindex hnext)
    refine (Expr.keeps_eval hcalls _ h hframe).andThen fun h hvalue hv => ?_
    refine (Expr.keeps_fetch h (hframe.later hvalue)).andThen fun h hfetch hw => ?_
    refine (Expr.keeps_asArray h hw).andThen fun h harray ha => ?_
    have hchecked := I.later_trans hvalue (I.later_trans hfetch harray)
    exact (keeps_write h (hframe.later hchecked) ha
      (I.held_later (I.later_trans hfetch harray) hv))
  | result value =>
    rw [trace, exec]
    apply Run.Invariant.Keeps.noted
    refine (Expr.keeps_eval hcalls _ h hframe).andThen fun h hlater hv => ?_
    exact .pure h ⟨hv, hframe.later hlater⟩

theorem keeps_execText (hcalls : I.KeptByCalls invoke within) (text : Text)
    (h : I.Holds s) (hframe : frame.Held I s) :
    I.Keeps s (execText invoke frame budget text) (traceText invoke within frame budget text s)
      (fun t after => I.Held t after.1 ∧ after.2.Held I t) := by
  unfold execText traceText
  cases ofText text with
  | ok statement => exact keeps_exec hcalls statement h hframe
  | error reason => exact .fail h

end Statement

theorem Function.keeps_runStatements (hcalls : I.KeptByCalls invoke within)
    (statements : List Text) {last : Option Value} (h : I.Holds s) (hframe : frame.Held I s)
    (hlast : ∀ v ∈ last, I.Held s v) :
    I.Keeps s (runStatements invoke budget frame last statements)
      (traceStatements invoke within budget frame statements s)
      (fun t last => ∀ v ∈ last, I.Held t v) := by
  induction statements generalizing s frame last with
  | nil => exact .pure h hlast
  | cons text rest ih =>
    refine (Statement.keeps_execText hcalls text h hframe).bind fun h _ hafter => ?_
    apply ih h hafter.2
    intro v hv
    cases hv
    exact hafter.1

end Calls

namespace Function

theorem keeps_ofCall {f : Function} {args : List Value} (h : I.Holds s)
    (hargs : ∀ v ∈ args, I.Held s v) :
    I.Keeps s (Run.ofExcept (Frame.ofCall f args)) [] (fun t frame => frame.Held I t) :=
  .ofExcept h fun _ hframe => Frame.held_ofCall hargs hframe

/-- Calls nested in a call are calls to a smaller depth: the induction is on it. -/
theorem keeps_invoke (depth : Nat) : I.KeptByCalls (invoke depth) (traceInvoke depth) := by
  induction depth with
  | zero =>
    intro f args s h _
    exact .throw h
  | succ depth ih =>
    intro f args s h hargs
    rw [traceInvoke]
    apply Run.Invariant.Keeps.noted
    rw [invoke]
    refine (keeps_ofCall h hargs).before fun h _ hframe => ?_
    refine (Run.Invariant.Keeps.limits h).before fun h hlimits _ => ?_
    refine (keeps_runStatements ih f.statements h (hframe.later hlimits) ?_).andThen
      fun h _ hlast => ?_
    · intro v hv
      cases hv
    split
    · exact .pure h (hlast _ rfl)
    · exact .fail h

theorem keeps_call : I.KeptByCalls call trace := by
  intro f args s h hargs
  unfold call trace
  refine (Run.Invariant.Keeps.limits h).before fun h hlater _ => ?_
  exact keeps_invoke _ h fun v hv => I.held_later hlater (hargs v hv)

end Function

namespace Run

theorem keeps_statement {frame : Frame} (budget : Int) (text : Text) (h : I.Holds s)
    (hframe : frame.Held I s) :
    I.Keeps s (statement frame budget text) (traceStatement frame budget text s)
      (fun t after => I.Held t after.1 ∧ after.2.Held I t) :=
  Statement.keeps_execText Function.keeps_call text h hframe

theorem keeps_expression {frame : Frame} (budget : Int) (text : Text) (h : I.Holds s)
    (hframe : frame.Held I s) :
    I.Keeps s (expression frame budget text) (traceExpression frame budget text s) I.Held :=
  Expr.keeps_eval Function.keeps_call _ h hframe

end Run

end Scriptlet
