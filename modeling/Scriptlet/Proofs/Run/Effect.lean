import Scriptlet.Proofs.Heap.Write
import Scriptlet.Proofs.Run.Growth
import Scriptlet.Proofs.Run.Outcome

namespace Scriptlet

/-! ### What may be held elsewhere -/

inductive Heap.MakesFrom (h : Heap) (a b : ArrayId) (made : Heap) : Prop where
  | reversed : h.reverse (.array a) = .ok (.array b, made) → MakesFrom h a b made
  | sliced {start : Int} : h.slice (.array a) start = .ok (.array b, made) → MakesFrom h a b made
  | copied : h.copy a = (b, made) → MakesFrom h a b made

/-- However it was made, it was made last. -/
theorem Heap.MakesFrom.size_eq {h made : Heap} {a b : ArrayId} (hmade : h.MakesFrom a b made) :
    b.index = h.size ∧ made.size = h.size + 1 := by
  have hhold {items : List Value} (hheld : h.hold (.elements items) = (.array b, made)) :
      b.index = h.size ∧ made.size = h.size + 1 := by
    cases hheld
    exact ⟨rfl, h.size_alloc items⟩
  cases hmade with
  | reversed hreverse => exact hhold (Except.ok.inj hreverse)
  | @sliced start hslice =>
    by_cases hrange : 0 ≤ start ∧ start ≤ (Sequence.elements (h.elements a)).length
    · have hsuffix : (Sequence.elements (h.elements a)).suffix start =
          .ok (.elements ((h.elements a).drop start.toNat)) := if_pos hrange
      rw [Heap.slice, Heap.sequence] at hslice
      simp only [bind, Except.bind, hsuffix] at hslice
      exact hhold (Except.ok.inj hslice)
    · have hsuffix : (Sequence.elements (h.elements a)).suffix start =
          .error (.indexOutOfRange start (h.elements a).length) := if_neg hrange
      rw [Heap.slice, Heap.sequence] at hslice
      simp only [bind, Except.bind, hsuffix] at hslice
      cases hslice
  | copied hcopy =>
    cases hcopy
    exact ⟨rfl, h.size_alloc _⟩

/-! ### Effects -/

/-- That a variable has been given a value, where it was before if it was bound and after all others if
not, and nothing else been done to the variables. -/
inductive Frame.Bound (before : Frame) (x : Text) (v : Value) : Frame → Prop where
  | rebound {front back : List (Text × Value)} {old : Value} :
    before.bindings = front ++ (x, old) :: back → x ∉ front.map Prod.fst →
    Bound before x v ⟨front ++ (x, v) :: back⟩
  | appended : x ∉ before.bindings.map Prod.fst → Bound before x v ⟨before.bindings ++ [(x, v)]⟩

theorem Frame.put_eq (x : Text) (v : Value) (bindings : List (Text × Value)) :
    (∃ front old back, bindings = front ++ (x, old) :: back ∧ x ∉ front.map Prod.fst ∧
      put x v bindings = front ++ (x, v) :: back) ∨
    (x ∉ bindings.map Prod.fst ∧ put x v bindings = bindings ++ [(x, v)]) := by
  induction bindings with
  | nil => exact .inr ⟨by simp, rfl⟩
  | cons binding rest ih =>
    obtain ⟨y, w⟩ := binding
    by_cases hy : y = x
    · subst hy
      exact .inl ⟨[], w, rest, rfl, by simp, by simp [put]⟩
    · have hput : put x v ((y, w) :: rest) = (y, w) :: put x v rest := by simp [put, hy]
      rw [hput]
      rcases ih with ⟨front, old, back, rfl, hfront, hrest⟩ | ⟨hnew, hrest⟩
      · refine .inl ⟨(y, w) :: front, old, back, rfl, ?_, by rw [hrest]; rfl⟩
        simp [hfront, Ne.symm hy]
      · refine .inr ⟨?_, by rw [hrest]; rfl⟩
        simp [hnew, Ne.symm hy]

theorem Frame.bound_set (frame : Frame) (x : Text) (v : Value) :
    frame.Bound x v (frame.set x v) := by
  rcases put_eq x v frame.bindings with ⟨front, old, back, hbindings, hfront, hput⟩ | ⟨hnew, hput⟩
  · rw [set, hput]
    exact .rebound hbindings hfront
  · rw [set, hput]
    exact .appended hnew

namespace Scope

/-- What an indexed assignment without a call does to the arrays: one place is given a value, which is
read there through any variable that holds the array, and new arrays may have been made. An array that
was made from that one at an earlier time is as it was. -/
structure WrittenOnce (s : Scope) (a : ArrayId) (index : Int) (v : Value) (t : Scope) : Prop where
  context : t.state.context = s.state.context
  size_le : s.state.heap.size ≤ t.state.heap.size
  length_eq : ∀ b, b.index < s.state.heap.size →
    (t.state.heap.elements b).length = (s.state.heap.elements b).length
  written : t.state.heap.readAt a index = .ok v
  elsewhere : ∀ b j, b.index < s.state.heap.size → b ≠ a ∨ j ≠ index →
    t.state.heap.readAt b j = s.state.heap.readAt b j
  aliases : ∀ x budget, t.frame.fetch x = .ok (.array a) → 0 < budget →
    (Expr.index x (.integer index.toNat)).eval Function.call t.frame budget t.state = .ok v t.state
  derived : ∀ (earlier : Heap) (b : ArrayId) (made : Heap), a.index < earlier.size →
    earlier.MakesFrom a b made → made.size ≤ s.state.heap.size →
    t.state.heap.elements b = s.state.heap.elements b

end Scope

/-- A write to arrays that have grown. -/
theorem Scope.writtenOnce_put {s : Scope} {u : State} {a : ArrayId} {n : Int} {v : Value}
    (hgrown : s.state.Grown u) (hcheck : u.heap.checkWrite a n v = .ok ()) (frame : Frame) :
    s.WrittenOnce a n v ⟨{ u with heap := u.heap.put a n.toNat v }, frame⟩ := by
  obtain ⟨hnonneg, hlt⟩ := Heap.inRange_of_checkWrite hcheck
  have hput := Heap.written_put u.heap v hnonneg hlt
  have helsewhere : ∀ b j, b.index < s.state.heap.size → b ≠ a ∨ j ≠ n →
      (u.heap.put a n.toNat v).readAt b j = s.state.heap.readAt b j := by
    intro b j hb hplace
    rw [hput.elsewhere b j hplace]
    simp only [Heap.readAt, hgrown.heap.2 b hb]
  refine ⟨hgrown.context, ?_, ?_, hput.written, helsewhere, ?_, ?_⟩
  · exact hgrown.heap.1.trans_eq hput.size_eq.symm
  · intro b hb
    rw [hput.length_eq, hgrown.heap.2 b hb]
  · intro x budget hfetch hbudget
    have hread := hput.written
    rw [← Int.toNat_of_nonneg hnonneg] at hread
    exact Expr.eval_index_of_readAt hbudget hfetch hread
  · intro earlier b made ha hmade hsize
    obtain ⟨hb, hmadeSize⟩ := hmade.size_eq
    have hne : b ≠ a := by
      rintro rfl
      omega
    exact Heap.elements_eq_of_readAt fun j => helsewhere b j (by omega) (.inl hne)

/-- What a statement that gives a value has done. -/
inductive Statement.Effect (budget : Int) (s : Scope) (w : Value) (t : Scope) : Statement → Prop where
  | assign {target value : Text} : s.frame.Bound target w t.frame →
    ((assign target value).callees = [] → s.state.Grown t.state) →
    Effect budget s w t (.assign target value)
  | assignIndex {target index value : Text} : t.frame = s.frame →
    ((assignIndex target index value).callees = [] → ∃ a n u,
      s.frame.fetch target = .ok (.array a) ∧
      (Expr.ofText index).eval Function.call s.frame budget s.state = .ok (.integer n) u ∧
      s.WrittenOnce a n w t) →
    Effect budget s w t (.assignIndex target index value)
  | result {value : Text} : t.frame = s.frame →
    ((result value).callees = [] → s.state.Grown t.state) →
    Effect budget s w t (.result value)

/-! ### The effect of a statement -/

theorem Statement.effect_of_exec {statement : Statement} {budget : Int} {s after : Scope} {w : Value}
    (h : statement.exec Function.call s.frame budget s.state = .ok (w, after.frame) after.state) :
    statement.Effect budget s w after := by
  obtain ⟨t, frame⟩ := after
  cases statement with
  | assign target value =>
    obtain ⟨heval, rfl⟩ := exec_assign_eq_ok.mp h
    exact .assign (s.frame.bound_set target w) fun hcallees =>
      (Expr.grows_eval _ hcallees budget).ok heval
  | result value =>
    obtain ⟨heval, rfl⟩ := exec_result_eq_ok.mp h
    exact .result rfl fun hcallees => (Expr.grows_eval _ hcallees budget).ok heval
  | assignIndex target index value =>
    obtain ⟨rfl, a, n, u, v, hindex, hvalue, hfetch, hcheck, rfl⟩ := exec_assignIndex_eq_ok.mp h
    refine .assignIndex rfl fun hcallees => ⟨a, n, u, hfetch, hindex, ?_⟩
    obtain ⟨hindexCalls, hvalueCalls⟩ := List.append_eq_nil_iff.mp hcallees
    have hgrown := ((Expr.grows_eval _ hindexCalls budget).ok hindex).trans
      ((Expr.grows_eval _ hvalueCalls budget).ok hvalue)
    exact Scope.writtenOnce_put hgrown hcheck s.frame

/-- What one statement does, in any context and on any arrays and variables. If it fails, the variables
are as they were, and if no call is written in it, so are the arrays and the context. If it succeeds, it
has had the effect of its form. -/
theorem Run.statement_has_effect (budget : Int) (t : Text) (s : Scope) :
    (∀ halt after, Run.statementInPlace budget t s = .error halt after →
      after.frame = s.frame ∧
        (Statement.calleesOfText t = [] → s.state.Grown after.state)) ∧
    (∀ w after, Run.statementInPlace budget t s = .ok w after →
      ∃ statement, Statement.ofText t = .ok statement ∧ statement.Effect budget s w after) ∧
    Run.statementInPlace budget t =
      ScopedRun.settling fun frame => Run.statement frame budget t := by
  refine ⟨?_, ?_, Run.statementInPlace_eq budget t⟩
  · intro halt after hrun
    rw [Run.statementInPlace_eq, ScopedRun.settling_eq_error] at hrun
    obtain ⟨hfails, hframe⟩ := hrun
    exact ⟨hframe, fun hcallees => Statement.growsIfFails_execText t hcallees budget hfails⟩
  · intro w after hrun
    rw [Run.statementInPlace_eq, ScopedRun.settling_eq_ok] at hrun
    unfold Run.statement Statement.execText at hrun
    cases hread : Statement.ofText t with
    | ok statement =>
      rw [hread] at hrun
      exact ⟨statement, rfl, Statement.effect_of_exec hrun⟩
    | error reason =>
      rw [hread] at hrun
      cases hrun

/-- A write that fails after its value was made leaves a new array behind, and no other trace. -/
example :
    let before : Heap := ⟨#[[.integer 1, .integer 2]]⟩
    let after : Heap := ⟨#[[.integer 1, .integer 2], [.integer 2, .integer 1]]⟩
    (Run.statement ⟨[(['a'], .array ⟨0⟩)]⟩ 20 "a[9]=a.reverse()".toList).finish ⟨before, .empty⟩ =
      ⟨after, .empty⟩ := by
  decide +kernel

end Scriptlet
