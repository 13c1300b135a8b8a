import Scriptlet.Proofs.Expr.Written
import Scriptlet.Proofs.Function.Extraction
import Scriptlet.Proofs.Heap.Nesting
import Scriptlet.Proofs.Run.Outcome

/-!
Scripts that go down into an array. Dropping the first element and entering it are enough to reach
any array nested in a variable, one statement after the other and without a number above one; from
there one more statement overwrites an element. The way down makes new arrays but changes none.
-/

namespace Scriptlet

/-- Statements that succeed one after the other, and the frame and state they lead to. -/
inductive Function.Steps (invoke : Invocation) (budget : Int) :
    List Text → Frame → State → Frame → State → Prop where
  | nil {frame : Frame} {s : State} : Steps invoke budget [] frame s frame s
  | cons {t : Text} {ts : List Text} {v : Value} {frame next last : Frame} {s u w : State} :
    Statement.execText invoke frame budget t s = .ok (v, next) u →
    Steps invoke budget ts next u last w → Steps invoke budget (t :: ts) frame s last w

namespace Function

variable {invoke : Invocation} {budget : Int} {ts us : List Text} {frame next last : Frame}
variable {s u w : State}

theorem Steps.single {t : Text} {v : Value}
    (h : Statement.execText invoke frame budget t s = .ok (v, next) u) :
    Steps invoke budget [t] frame s next u :=
  .cons h .nil

theorem Steps.append (hfirst : Steps invoke budget ts frame s next u)
    (hnext : Steps invoke budget us next u last w) :
    Steps invoke budget (ts ++ us) frame s last w := by
  induction hfirst with
  | nil => exact hnext
  | cons hexec _ ih => exact .cons hexec (ih hnext)

/-- A body whose statements all succeed ends in the state they lead to. -/
theorem runStatements_of_steps (h : Steps invoke budget ts frame s last w) (v : Option Value) :
    ∃ r, runStatements invoke budget frame v ts s = .ok r w := by
  induction h generalizing v with
  | nil => exact ⟨v, rfl⟩
  | cons hexec _ ih =>
    obtain ⟨r, hr⟩ := ih (some _)
    exact ⟨r, Run.bind_eq_ok.mpr ⟨_, _, hexec, hr⟩⟩

end Function

namespace Descent

/-- The variable that goes down. -/
def cursor : Text :=
  ['a']

def dropFirst : Text :=
  "a=a.slice(1)".toList

def enterFirst : Text :=
  "a=a[0]".toList

def overwriteFirst (n : Nat) : Text :=
  "a[0]=".toList ++ Decimal.ofNat n

theorem ofText_dropFirst :
    Statement.ofText dropFirst = .ok (.assign cursor "a.slice(1)".toList) := by
  rfl

theorem ofText_enterFirst :
    Statement.ofText enterFirst = .ok (.assign cursor "a[0]".toList) := by
  rfl

theorem exprOfText_integer {t : Text} {n : Nat} (h : Shape.ofText t = .ok (.integer n)) :
    Expr.ofText t = .integer n := by
  rw [Expr.ofText_of_shape h]
  rfl

theorem exprOfText_slice : Expr.ofText "a.slice(1)".toList = .slice cursor (.integer 1) := by
  have hshape : Shape.ofText "a.slice(1)".toList = .ok (.slice cursor ['1']) := by rfl
  have hstart : Expr.ofText ['1'] = .integer 1 := exprOfText_integer (by rfl)
  rw [Expr.ofText_of_shape hshape, Shape.toExpr, hstart]

theorem exprOfText_index : Expr.ofText "a[0]".toList = .index cursor (.integer 0) := by
  have hshape : Shape.ofText "a[0]".toList = .ok (.index cursor ['0']) := by rfl
  have hposition : Expr.ofText ['0'] = .integer 0 := exprOfText_integer (by rfl)
  rw [Expr.ofText_of_shape hshape, Shape.toExpr, hposition]

theorem shape_ofNat {n : Nat} (hn : InRange n) :
    Shape.ofText (Decimal.ofNat n) = .ok (.integer n) := by
  rw [Shape.ofText, if_pos (Decimal.isDigits_ofNat n), readDigits_ofNat hn]
  rfl

theorem ofText_overwriteFirst (n : Nat) :
    Statement.ofText (overwriteFirst n) = .ok (.assignIndex cursor ['0'] (Decimal.ofNat n)) := by
  have hline : '\n' ∉ Decimal.ofNat n := Text.not_mem_decimal rfl n
  have hrun : Text.run Char.isLower ('a' :: '[' :: '0' :: ']' :: '=' :: Decimal.ofNat n) =
      (['a'], '[' :: '0' :: ']' :: '=' :: Decimal.ofNat n) := by
    refine Text.run_eq_cons_iff.mpr ⟨rfl, ?_, rfl⟩
    simp
  show Statement.ofText ('a' :: '[' :: '0' :: ']' :: '=' :: Decimal.ofNat n) = _
  simp [Statement.ofText, Statement.withoutVar, Text.after?, Statement.assignment?, hrun,
    Statement.cutWrite?, hline, cursor]

section Steps

variable {invoke : Invocation} {budget : Int} {frame : Frame} {s : State} {x : ArrayId}

theorem eval_slice (hbudget : 1 ≤ budget) (hx : frame.fetch cursor = .ok (.array x))
    (hne : s.heap.elements x ≠ []) :
    let made := s.heap.alloc ((s.heap.elements x).drop 1)
    (Expr.slice cursor (.integer 1)).eval invoke frame budget s =
      .ok (.array made.1) { s with heap := made.2 } := by
  intro made
  have hstart : (Expr.integer 1).eval invoke frame (budget - 1) s = .ok (.integer 1) s :=
    Expr.eval_integer (by omega)
  have hsuffix : (Sequence.elements (s.heap.elements x)).suffix 1 =
      .ok (.elements ((s.heap.elements x).drop 1)) := by
    have hlength := List.length_pos_iff.mpr hne
    have hrange : 0 ≤ (1 : Int) ∧ (1 : Int) ≤ (Sequence.elements (s.heap.elements x)).length := by
      simp only [Sequence.length]
      omega
    unfold Sequence.suffix
    rw [if_pos hrange]
    rfl
  rw [Expr.eval, if_neg (by omega)]
  refine Run.bind_eq_ok.mpr ⟨_, _, Run.ofExcept_eq_ok.mpr ⟨hx, rfl⟩, ?_⟩
  refine Run.bind_eq_ok.mpr ⟨_, _, hstart, ?_⟩
  refine Run.bind_eq_ok.mpr ⟨_, _, Run.ofValue_eq_ok.mpr ⟨rfl, rfl⟩, ?_⟩
  refine Run.bind_eq_ok.mpr ⟨_, _, Run.reading_eq_ok.mpr ⟨hsuffix, rfl⟩, ?_⟩
  exact Run.changing_eq _ s

theorem eval_index (hbudget : 1 ≤ budget) {v : Value} {rest : List Value}
    (hx : frame.fetch cursor = .ok (.array x)) (helements : s.heap.elements x = v :: rest) :
    (Expr.index cursor (.integer 0)).eval invoke frame budget s = .ok v s := by
  have hread : s.heap.readAt x 0 = .ok v := by
    simp [Heap.readAt, helements]
  exact Expr.eval_index_of_readAt hbudget hx hread

theorem step_dropFirst (hbudget : 1 ≤ budget) (hx : frame.fetch cursor = .ok (.array x))
    (hne : s.heap.elements x ≠ []) :
    let made := s.heap.alloc ((s.heap.elements x).drop 1)
    Function.Steps invoke budget [dropFirst] frame s (frame.set cursor (.array made.1))
      { s with heap := made.2 } := by
  intro made
  have hexec : Statement.execText invoke frame budget dropFirst s =
      .ok (.array made.1, frame.set cursor (.array made.1)) { s with heap := made.2 } := by
    rw [Statement.execText, ofText_dropFirst]
    refine Statement.exec_assign_eq_ok.mpr ⟨?_, rfl⟩
    rw [exprOfText_slice]
    exact eval_slice hbudget hx hne
  exact .single hexec

theorem step_enterFirst (hbudget : 1 ≤ budget) {v : Value} {rest : List Value}
    (hx : frame.fetch cursor = .ok (.array x)) (helements : s.heap.elements x = v :: rest) :
    Function.Steps invoke budget [enterFirst] frame s (frame.set cursor v) s := by
  have hexec : Statement.execText invoke frame budget enterFirst s =
      .ok (v, frame.set cursor v) s := by
    rw [Statement.execText, ofText_enterFirst]
    refine Statement.exec_assign_eq_ok.mpr ⟨?_, rfl⟩
    rw [exprOfText_index]
    exact eval_index hbudget hx helements
  exact .single hexec

theorem step_overwriteFirst {n : Nat} (hn : InRange n) (hbudget : 1 ≤ budget)
    (hx : frame.fetch cursor = .ok (.array x)) (hne : s.heap.elements x ≠ []) :
    Function.Steps invoke budget [overwriteFirst n] frame s frame
      { s with heap := s.heap.put x 0 (.integer n) } := by
  have hindex : (Expr.ofText ['0']).eval invoke frame budget s = .ok (.integer 0) s := by
    have hzero : Expr.ofText ['0'] = .integer 0 := exprOfText_integer (by rfl)
    rw [hzero]
    exact Expr.eval_integer (by omega)
  have hvalue : (Expr.ofText (Decimal.ofNat n)).eval invoke frame budget s =
      .ok (.integer n) s := by
    rw [exprOfText_integer (shape_ofNat hn)]
    exact Expr.eval_integer (by omega)
  have hcheck : s.heap.checkWrite x 0 (.integer n) = .ok () := by
    have hlength := List.length_pos_iff.mpr hne
    simp [Heap.checkWrite, Heap.reaches, hlength]
  have hexec : Statement.execText invoke frame budget (overwriteFirst n) s =
      .ok (.integer n, frame) { s with heap := s.heap.put x 0 (.integer n) } := by
    rw [Statement.execText, ofText_overwriteFirst]
    exact Statement.exec_assignIndex_eq_ok.mpr
      ⟨rfl, x, 0, s, s, hindex, hvalue, hx, hcheck, rfl⟩
  exact .single hexec

theorem fetch_set (frame : Frame) (v : Value) : (frame.set cursor v).fetch cursor = .ok v := by
  simp [Frame.fetch, Frame.get?_set]

/-- Any array among the elements of the array in the variable can be entered: what stands before it
is dropped one by one. -/
theorem exists_steps_enter (invoke : Invocation) {items : List Value} {c : ArrayId}
    (hbudget : 1 ≤ budget) (hc : Value.array c ∈ items) :
    ∃ ts, (∀ t ∈ ts, t = dropFirst ∨ t = enterFirst) ∧
      ∀ {frame s x}, frame.fetch cursor = .ok (.array x) → s.heap.elements x = items →
        ∃ next u, Function.Steps invoke budget ts frame s next u ∧
          next.fetch cursor = .ok (.array c) ∧ s.heap.Extends u.heap := by
  induction items with
  | nil => cases hc
  | cons v rest ih =>
    rcases List.mem_cons.mp hc with rfl | hrest
    · refine ⟨[enterFirst], by simp, ?_⟩
      intro frame s x hx helements
      exact ⟨_, _, step_enterFirst hbudget hx helements, fetch_set frame _, s.heap.extends_refl⟩
    · obtain ⟨ts, hts, hsteps⟩ := ih hrest
      refine ⟨dropFirst :: ts, ?_, ?_⟩
      · intro t ht
        rcases List.mem_cons.mp ht with rfl | ht
        · exact .inl rfl
        · exact hts t ht
      · intro frame s x hx helements
        have hne : s.heap.elements x ≠ [] := by simp [helements]
        have hdrop : Function.Steps invoke budget [dropFirst] frame s _ _ :=
          step_dropFirst hbudget hx hne
        rw [helements, List.drop_one, List.tail_cons] at hdrop
        have hmade := s.heap.extends_alloc rest
        have hitems := Heap.elements_alloc_self s.heap rest
        obtain ⟨next, u, hnext, hfetch, hextends⟩ :=
          hsteps (s := { s with heap := (s.heap.alloc rest).2 }) (fetch_set frame _) hitems
        exact ⟨next, u, hdrop.append hnext, hfetch, hmade.trans hextends⟩

/-- Any array nested in the one in the variable can be entered, level by level. -/
theorem exists_steps_descend (invoke : Invocation) {h : Heap} {a b : ArrayId}
    (hbudget : 1 ≤ budget) (hnested : h.Nested a b) :
    ∃ ts, (∀ t ∈ ts, t = dropFirst ∨ t = enterFirst) ∧
      ∀ {frame s}, h.Extends s.heap → frame.fetch cursor = .ok (.array b) →
        ∃ next u, Function.Steps invoke budget ts frame s next u ∧
          next.fetch cursor = .ok (.array a) ∧ h.Extends u.heap := by
  induction hnested with
  | refl =>
    refine ⟨[], by simp, ?_⟩
    intro frame s hextends hfetch
    exact ⟨frame, s, .nil, hfetch, hextends⟩
  | @step b c hchild _ ih =>
    obtain ⟨rest, hrest, hdescend⟩ := ih
    have hmem := Heap.mem_children_iff.mp hchild
    obtain ⟨ts, hts, henter⟩ := exists_steps_enter invoke hbudget hmem
    refine ⟨ts ++ rest, ?_, ?_⟩
    · intro t ht
      rcases List.mem_append.mp ht with ht | ht
      · exact hts t ht
      · exact hrest t ht
    · intro frame s hextends hfetch
      have hsame := hextends.2 b (Heap.index_lt_of_mem hmem)
      obtain ⟨next, u, hsteps, hnext, hlater⟩ := henter hfetch hsame
      obtain ⟨last, w, hmore, hlast, hend⟩ := hdescend (hextends.trans hlater) hnext
      exact ⟨last, w, hsteps.append hmore, hlast, hend⟩

/-- A number that a value is not. -/
theorem exists_other_integer (v : Value) : ∃ n : Nat, InRange n ∧ v ≠ .integer n := by
  by_cases hv : v = .integer 0
  · refine ⟨1, by decide, ?_⟩
    rw [hv]
    decide
  · exact ⟨0, by decide, hv⟩

/-- Overwriting the first element with another number shows. -/
theorem elements_put_ne {h : Heap} {a : ArrayId} {v : Value} {rest : List Value} {n : Nat}
    (helements : h.elements a = v :: rest) (hother : v ≠ .integer n) :
    (h.put a 0 (.integer n)).elements a ≠ h.elements a := by
  rw [Heap.elements_put, if_pos rfl, helements, List.set_cons_zero]
  intro hsame
  exact hother (List.cons.inj hsame).1.symm

/-- From a variable with the elements of an array, any array nested in those elements can be reached
and, unless it is empty, changed. -/
theorem exists_steps_change (invoke : Invocation) {h : Heap} {a b c : ArrayId}
    (hbudget : 1 ≤ budget) (hb : Value.array b ∈ h.elements c) (hnested : h.Nested a b)
    (hne : h.elements a ≠ []) :
    ∃ ts n, (∀ t ∈ ts, t = dropFirst ∨ t = enterFirst) ∧
      ∀ {frame s x}, h.Extends s.heap → frame.fetch cursor = .ok (.array x) →
        s.heap.elements x = h.elements c →
        ∃ last u, Function.Steps invoke budget (ts ++ [overwriteFirst n]) frame s last u ∧
          u.heap.elements a ≠ h.elements a := by
  obtain ⟨ts, hts, henter⟩ := exists_steps_enter invoke hbudget hb
  obtain ⟨us, hus, hdescend⟩ := exists_steps_descend invoke hbudget hnested
  obtain ⟨first, rest, helements⟩ := List.exists_cons_of_ne_nil hne
  obtain ⟨n, hn, hother⟩ := exists_other_integer first
  refine ⟨ts ++ us, n, ?_, ?_⟩
  · intro t ht
    rcases List.mem_append.mp ht with ht | ht
    · exact hts t ht
    · exact hus t ht
  · intro frame s x hbegin hfetch hitems
    obtain ⟨next, u, hsteps, hnext, hlater⟩ := henter hfetch hitems
    obtain ⟨last, z, hmore, hlast, hend⟩ := hdescend (hbegin.trans hlater) hnext
    have ha : a.index < h.size := Heap.index_lt_of_mem (v := first) (by simp [helements])
    have hsame : z.heap.elements a = h.elements a := hend.2 a ha
    have hwrite : Function.Steps invoke budget [overwriteFirst n] last z last _ :=
      step_overwriteFirst hn hbudget hlast (hsame ▸ hne)
    refine ⟨last, _, (hsteps.append hmore).append hwrite, ?_⟩
    have hchanged := elements_put_ne (hsame.trans helements) hother
    rwa [hsame] at hchanged

end Steps

end Descent

end Scriptlet
