import Scriptlet.Proofs.Run.Coverage
import Scriptlet.Proofs.Run.Obedience
import Scriptlet.Proofs.Value.Remainder
import Scriptlet.Proofs.World.History

/-!
Whole numbers stay in range. New numbers come from rows of digits, which are read only if they are in
range, from remainders, which are no larger than the dividend, and from lengths. The last are not
bounded by anything in a script, so all that is said of a run is said up to the first moment at which a
variable has something as long as 2 ^ 63.
-/

namespace Scriptlet

def Value.Fits (v : Value) : Prop :=
  ∀ n, v = .integer n → InRange n

theorem Value.fits_integer_iff {n : Int} : (Value.integer n).Fits ↔ InRange n := by
  simp [Fits]

instance Value.decidableFits (v : Value) : Decidable v.Fits :=
  match v with
  | .integer _ => decidable_of_iff _ fits_integer_iff.symm
  | .text _ | .array _ | .function _ => isTrue fun _ h => by cases h

def Heap.Fits (h : Heap) : Prop :=
  ∀ a, ∀ v ∈ h.elements a, v.Fits

namespace Scope

/-- What is in variables and arrays at a moment is in range. -/
structure Fits (m : Scope) : Prop where
  frame : ∀ entry ∈ m.frame.bindings, entry.2.Fits
  heap : m.state.heap.Fits

def Short (m : Scope) : Prop :=
  ∀ entry ∈ m.frame.bindings, ∀ n ∈ (m.state.heap.length entry.2).toOption, n < 2 ^ 63

instance decidableShort (m : Scope) : Decidable m.Short :=
  inferInstanceAs (Decidable (∀ entry ∈ m.frame.bindings,
    ∀ n ∈ (m.state.heap.length entry.2).toOption, n < 2 ^ 63))

end Scope

/-! ### Runs -/

def Run.Rules.inRange : Run.Rules where
  Binds _ := True
  Holds := Value.Fits
  Knows _ := True
  Calls _ := True
  Fails _ := True
  Assumes := Scope.Short
  binds_lower _ := trivial
  binds_param _ _ _ := trivial
  holds_text t n h := by cases h
  holds_array a n h := by cases h
  holds_literal := by
    rintro n hn _ ⟨⟩
    exact hn
  holds_remainder := by
    rintro m n r hm hr _ ⟨⟩
    obtain ⟨q, hdivides⟩ := Value.remainder_eq_ok_iff.mp hr
    exact hdivides.inRange (hm m rfl)
  holds_length := by
    rintro m x v n hshort hfetch hlength _ ⟨⟩
    have hentry := Frame.mem_of_fetch hfetch
    have hlt : n < 2 ^ 63 := hshort _ hentry n (by simp [hlength, Except.toOption])
    exact ⟨by omega, by omega⟩
  knows_resolve _ _ := trivial
  calls_resolve _ _ := trivial
  fails_resolve _ _ := trivial
  fails_emptyBody _ _ := trivial
  fails_other _ := trivial

namespace Operation

def moments (w : World) : Operation → List Scope
  | .statement id frame budget t => Run.momentsOfStatement frame budget t (w.state id)
  | .expression id frame budget t => Run.momentsOfExpression frame budget t (w.state id)
  | .call f args => f.function.moments args (w.state f.context)
  | .eval r args =>
    r.entry.function.moments (w.heap.copyArrays args).1
      ((Routine.prepared w args).state r.entry.context)
  | _ => []

/-- The values that an operation gives back if it succeeds: its own, and those of the variables after a
statement. -/
def results (w : World) : Operation → List Value
  | .makeArray items => [.array (w.heap.alloc items).1]
  | .reverse v => ((w.heap.reverse v).map Prod.fst).toOption.toList
  | .slice v start => ((w.heap.slice v start).map Prod.fst).toOption.toList
  | .splitChars t => [(w.heap.characters t).1]
  | .copy a => [.array (w.heap.copy a).1]
  | .resolve id name => ((w.resolve id name).1.map Value.function).toOption.toList
  | .statement id frame budget t =>
    match (w.run id (Run.statement frame budget t)).1 with
    | .ok (v, after) => v :: after.bindings.map Prod.snd
    | .error _ => []
  | .expression id frame budget t =>
    (w.run id (Run.expression frame budget t)).1.toOption.toList
  | .call f args => (w.call f args).1.toOption.toList
  | .eval r args => (r.eval w args).1.toOption.toList
  | .setIndex _ _ _ | .openContext _ _ | .release _ => []

/-- That whole numbers stay in range in an operation: in variables and arrays at every moment up to
which lengths do; and if they do throughout, in the arrays at any point inside and in what it leaves
and gives back. -/
structure KeepsRange (w : World) (op : Operation) : Prop where
  moments : ∀ before m after, op.moments w = before ++ m :: after → (∀ x ∈ before, x.Short) →
    m.Short → m.Fits
  inside : (∀ m ∈ op.moments w, m.Short) → ∀ h ∈ op.heapsInside w, h.Fits
  heap : (∀ m ∈ op.moments w, m.Short) → (op.perform w).heap.Fits
  results : (∀ m ∈ op.moments w, m.Short) → ∀ v ∈ op.results w, v.Fits

end Operation

/-! ### Changes from outside -/

namespace Heap

variable {h g : Heap} {u v : Value}

theorem sound_of_fits (hheap : h.Fits) (c : Context) : Run.Rules.inRange.Sound ⟨h, c⟩ :=
  ⟨hheap, trivial⟩

theorem fits_hold {q : Sequence} (hheap : h.Fits) (hq : q.AllHeld .inRange) :
    (h.hold q).1.Fits ∧ (h.hold q).2.Fits := by
  have hobeys := obeys_hold (sound_of_fits hheap .empty) hq
  obtain ⟨hsound, hheld⟩ := hobeys.ends (by simp)
  exact ⟨hheld, hsound.elements⟩

theorem fits_alloc {items : List Value} (hheap : h.Fits) (hitems : ∀ v ∈ items, v.Fits) :
    (h.alloc items).2.Fits :=
  (fits_hold (q := .elements items) hheap hitems).2

theorem fits_array (a : ArrayId) : (Value.array a).Fits := by
  rintro n ⟨⟩

/-- What is made of a part of a value holds no other numbers than the value. -/
theorem fits_taken {f : Sequence → Except ValueError Sequence} (hheap : h.Fits)
    (hf : ∀ {q rest}, q.AllHeld .inRange → f q = .ok rest → rest.AllHeld .inRange)
    (hmade : (do return h.hold (← f (← h.sequence v))) = .ok (u, g)) : u.Fits ∧ g.Fits := by
  cases hq : h.sequence v with
  | error reason =>
    rw [hq] at hmade
    cases hmade
  | ok q =>
    simp only [hq, bind, Except.bind] at hmade
    cases hrest : f q with
    | error reason =>
      rw [hrest] at hmade
      cases hmade
    | ok rest =>
      rw [hrest] at hmade
      have hheld := hf (allHeld_sequence (sound_of_fits hheap .empty) hq) hrest
      have hfits := fits_hold hheap hheld
      rw [Except.ok.inj hmade] at hfits
      exact hfits

theorem fits_reverse (hheap : h.Fits) (hmade : h.reverse v = .ok (u, g)) : u.Fits ∧ g.Fits := by
  refine fits_taken (f := fun q => .ok q.reverse) hheap (fun hq hrest => ?_) hmade
  cases hrest
  exact Sequence.allHeld_reverse hq

theorem fits_slice {start : Int} (hheap : h.Fits) (hmade : h.slice v start = .ok (u, g)) :
    u.Fits ∧ g.Fits :=
  fits_taken hheap Sequence.allHeld_suffix hmade

theorem fits_writeAt {a : ArrayId} {index : Int} (hheap : h.Fits) (hv : v.Fits)
    (hmade : h.writeAt a index v = .ok g) : g.Fits := by
  unfold writeAt at hmade
  cases hcheck : h.checkWrite a index v with
  | error reason =>
    rw [hcheck] at hmade
    cases hmade
  | ok _ =>
    rw [hcheck] at hmade
    cases hmade
    intro b w hw
    rcases mem_elements_put hw with hold | ⟨-, rfl⟩
    · exact hheap b w hold
    · exact hv

theorem fits_copyArrays {args : List Value} (hheap : h.Fits) (hargs : ∀ v ∈ args, v.Fits) :
    (h.copyArrays args).2.Fits ∧ ∀ v ∈ (h.copyArrays args).1, v.Fits := by
  induction args generalizing h with
  | nil => exact ⟨hheap, by simp [copyArrays]⟩
  | cons arg args ih =>
    obtain ⟨harg, hrest⟩ := List.forall_mem_cons.mp hargs
    cases arg with
    | array a =>
      obtain ⟨hcopied, hcopies⟩ := ih (fits_alloc hheap (hheap a)) hrest
      exact ⟨hcopied, List.forall_mem_cons.mpr ⟨fits_array _, hcopies⟩⟩
    | integer | text | function =>
      obtain ⟨hcopied, hcopies⟩ := ih hheap hrest
      exact ⟨hcopied, List.forall_mem_cons.mpr ⟨harg, hcopies⟩⟩

end Heap

/-! ### Operations -/

namespace Operation

variable {w : World} {op : Operation}

/-- An operation that runs no script is judged by what it leaves and gives back. -/
theorem KeepsRange.of_still (hmoments : op.moments w = []) (hinside : op.heapsInside w = [])
    (hheap : (op.perform w).heap.Fits) (hresults : ∀ v ∈ op.results w, v.Fits) :
    op.KeepsRange w where
  moments before m after hsplit := by
    rw [hmoments] at hsplit
    simp at hsplit
  inside _ h hh := by
    rw [hinside] at hh
    cases hh
  heap _ := hheap
  results _ := hresults

/-- One that runs a script keeps whole numbers in range if the run does. -/
theorem KeepsRange.of_obeys {α : Type} {v : World} {id : ContextId} {x : Run α} {Result : α → Prop}
    {states : List State} (hv : v.heap.Fits)
    (hx : Run.Rules.inRange.Obeys (v.state id) x (op.moments w) Result)
    (hstates : RecordedUpTo x (v.state id) states (op.moments w))
    (hinside : op.heapsInside w ⊆ v.heap :: states.map State.heap)
    (hheap : (op.perform w).heap = (v.run id x).2.heap)
    (hresults : (∀ a, (v.run id x).1 = .ok a → Result a) → ∀ u ∈ op.results w, u.Fits) :
    op.KeepsRange w where
  moments before m after hsplit hbefore hm := by
    have hupheld := hx.upheld
    rw [hsplit] at hupheld
    have hgood := hupheld.kept hbefore hm
    exact ⟨fun entry hentry => (hgood.frame entry hentry).2, hgood.state.elements⟩
  inside hshort h hh := by
    rcases List.mem_cons.mp (hinside hh) with rfl | hh
    · exact hv
    · obtain ⟨t, ht, rfl⟩ := List.mem_map.mp hh
      rcases hstates t ht with ⟨m, hm, rfl⟩ | rfl
      · exact (hx.upheld.of_mem hshort hm).state.elements
      · exact (hx.ends hshort).sound_finish.elements
  heap hshort := by
    rw [hheap, World.heap_run]
    exact (hx.ends hshort).sound_finish.elements
  results hshort := by
    refine hresults fun a hrun => ?_
    obtain ⟨t, hstep, -⟩ := World.run_eq_ok hrun
    have hends := hx.ends hshort
    rw [hstep] at hends
    exact hends.2

theorem fits_heapAfter {h : Heap} {r : Except ValueError Heap} (hheap : h.Fits)
    (hr : ∀ g, r = .ok g → g.Fits) : (heapAfter h r).Fits := by
  cases r with
  | error reason => exact hheap
  | ok g => exact hr g rfl

/-- What a change from outside makes is in range, or nothing is made. -/
theorem fits_made {h : Heap} {r : Except ValueError (Value × Heap)} (hheap : h.Fits)
    (hr : ∀ u g, r = .ok (u, g) → u.Fits ∧ g.Fits) :
    (heapAfter h (r.map Prod.snd)).Fits ∧ ∀ v ∈ (r.map Prod.fst).toOption.toList, v.Fits := by
  cases r with
  | error reason => exact ⟨hheap, by simp [Except.map, Except.toOption]⟩
  | ok made =>
    obtain ⟨hu, hg⟩ := hr made.1 made.2 rfl
    exact ⟨hg, by simpa [Except.map, Except.toOption] using hu⟩

theorem tidy_inRange {frame : Frame} (hframe : ∀ v ∈ frame.bindings.map Prod.snd, v.Fits) :
    Run.Rules.inRange.Tidy frame :=
  fun _ hentry => ⟨trivial, hframe _ (List.mem_map_of_mem hentry)⟩

theorem fits_of_mem_value {r : Except Halt Value} (hr : ∀ v, r = .ok v → v.Fits) :
    ∀ v ∈ r.toOption.toList, v.Fits := by
  cases r with
  | error halt => simp [Except.toOption]
  | ok v => simpa [Except.toOption] using hr v rfl

/-- What a statement gives back: its value, and those of the variables. -/
theorem fits_of_mem_statement {id : ContextId} {frame : Frame} {budget : Int} {t : Text}
    (hleaves : ∀ after, (w.run id (Run.statement frame budget t)).1 = .ok after →
      Statement.Leaves .inRange after) :
    ∀ v ∈ results w (.statement id frame budget t), v.Fits := by
  simp only [results]
  split
  · rename_i v after hrun
    obtain ⟨hv, hafter⟩ := hleaves _ hrun
    refine List.forall_mem_cons.mpr ⟨hv, fun u hu => ?_⟩
    obtain ⟨entry, hentry, rfl⟩ := List.mem_map.mp hu
    exact (hafter entry hentry).2
  · simp

theorem keepsRange (op : Operation) (hheap : w.heap.Fits) (hoperands : ∀ v ∈ op.operands, v.Fits) :
    op.KeepsRange w := by
  cases op with
  | makeArray items =>
    refine .of_still rfl rfl (Heap.fits_alloc hheap hoperands) ?_
    simpa [results] using Heap.fits_array _
  | setIndex a index v =>
    have hv : v.Fits := hoperands v (by simp [operands])
    have hafter : (heapAfter w.heap (w.heap.writeAt a index v)).Fits :=
      fits_heapAfter hheap fun _ => Heap.fits_writeAt hheap hv
    exact .of_still rfl rfl hafter (by simp [results])
  | reverse v =>
    have hmade : ∀ u g, w.heap.reverse v = .ok (u, g) → u.Fits ∧ g.Fits :=
      fun _ _ => Heap.fits_reverse hheap
    obtain ⟨hafter, hvalue⟩ := fits_made hheap hmade
    exact .of_still rfl rfl hafter hvalue
  | slice v start =>
    have hmade : ∀ u g, w.heap.slice v start = .ok (u, g) → u.Fits ∧ g.Fits :=
      fun _ _ => Heap.fits_slice hheap
    obtain ⟨hafter, hvalue⟩ := fits_made hheap hmade
    exact .of_still rfl rfl hafter hvalue
  | splitChars t =>
    obtain ⟨hvalue, hafter⟩ := Heap.fits_hold hheap (Sequence.allHeld_singles t)
    exact .of_still rfl rfl hafter (List.forall_mem_singleton.mpr hvalue)
  | copy a =>
    refine .of_still rfl rfl (Heap.fits_alloc hheap (hheap a)) ?_
    simpa [results] using Heap.fits_array _
  | openContext script limits => exact .of_still rfl rfl hheap (by simp [results])
  | resolve id name =>
    refine .of_still rfl rfl hheap (fits_of_mem_value fun v hv => ?_)
    cases hrun : (w.resolve id name).1 <;> rw [hrun] at hv <;> cases hv
    rintro n ⟨⟩
  | release id => exact .of_still rfl rfl hheap (by simp [results])
  | statement id frame budget t =>
    have hs := Heap.sound_of_fits hheap (w.context id)
    have hobeys := Run.obeys_statement budget t hs (tidy_inRange hoperands)
    have hstates := Run.recorded_traceStatement frame budget t (w.state id)
    exact .of_obeys hheap hobeys (hstates.upTo _) (List.subset_cons_self _ _) rfl
      fits_of_mem_statement
  | expression id frame budget t =>
    have hs := Heap.sound_of_fits hheap (w.context id)
    have hobeys := Run.obeys_expression budget t hs (tidy_inRange hoperands)
    have hstates := Run.recorded_traceExpression frame budget t (w.state id)
    exact .of_obeys hheap hobeys (hstates.upTo _) (List.subset_cons_self _ _) rfl
      fits_of_mem_value
  | call f args =>
    have hs := Heap.sound_of_fits hheap (w.context f.context)
    have hobeys : Run.Rules.inRange.Obeys (w.state f.context) (f.function.call args)
        (f.function.moments args (w.state f.context)) Value.Fits :=
      Function.obeys_call hs trivial hoperands
    have hstates := Function.recorded_trace f.function args (w.state f.context)
    exact .of_obeys hheap hobeys hstates (List.subset_cons_self _ _) rfl fits_of_mem_value
  | eval r args =>
    obtain ⟨hcopied, hcopies⟩ := Heap.fits_copyArrays hheap hoperands
    have hs := Heap.sound_of_fits hcopied (w.context r.entry.context)
    have hobeys := Function.obeys_call hs (f := r.entry.function) trivial hcopies
    have hstates := Function.recorded_trace r.entry.function (w.heap.copyArrays args).1
      ((Routine.prepared w args).state r.entry.context)
    exact .of_obeys (v := Routine.prepared w args) hcopied hobeys hstates (List.Subset.refl _) rfl
      fits_of_mem_value

end Operation

/-! ### Numbers that are written, and remainders -/

/-- A row of digits as an argument of a call and as an expression: its decimal value, leading zeros or
not, or refused if that is too large. -/
structure ReadExactly (row : Text) (n : Nat) : Prop where
  argument : ∀ call, Argument.ofText call row =
    if n ≤ 2 ^ 63 - 1 then .ok (.integer n) else .error (.integerOutOfRange row)
  expression : ∀ {invoke frame budget s}, 0 ≤ budget →
    (Expr.ofText row).eval invoke frame budget s =
      if n ≤ 2 ^ 63 - 1 then .ok (.integer n) s
      else .error (.error (.reading (.integerOutOfRange row))) s

theorem readExactly {row : Text} (hrow : Decimal.isDigits row = true) :
    ReadExactly row (Nat.ofDigits 10 (row.reverse.map Decimal.digit)) := by
  constructor
  · intro call
    rw [Argument.ofText_of_digits hrow, readDigits_eq_of_le]
    split <;> rfl
  · intro invoke frame budget s hbudget
    rw [Expr.eval_ofText_of_digits hrow hbudget, readDigits_eq_of_le]
    by_cases hn : Nat.ofDigits 10 (row.reverse.map Decimal.digit) ≤ 2 ^ 63 - 1
    · simp only [if_pos hn]
    · simp only [if_neg hn]

/-- The remainder of two numbers: there is one unless the divisor is nothing, it is the only rest of a
division toward zero, and two expressions with these values come to it. -/
structure RemainderExact (a b : Int) : Prop where
  error_iff : Value.remainder a b = .error .divisionByZero ↔ b = 0
  rest : b ≠ 0 → ∃ r, Value.remainder a b = .ok r ∧ InRange r ∧
    ∀ q rest, DividesInto a b q rest ↔ q = a.tdiv b ∧ rest = r
  expression : ∀ {left right invoke frame budget s t u},
    Expr.eval invoke frame left budget s = .ok (.integer a) t →
    Expr.eval invoke frame right budget t = .ok (.integer b) u →
    (Expr.remainder left right).eval invoke frame budget s =
      Run.ofValue ((Value.remainder a b).map .integer) u

theorem remainderExact {a b : Int} (ha : InRange a) : RemainderExact a b where
  error_iff := by simp [Value.remainder_eq_error_iff]
  rest hb := by
    have hdivides := dividesInto_tdiv_tmod (a := a) hb
    refine ⟨_, Value.remainder_eq_ok_iff.mpr ⟨_, hdivides⟩, hdivides.inRange ha, fun q rest => ?_⟩
    constructor
    · exact DividesInto.unique
    · rintro ⟨rfl, rfl⟩
      exact hdivides
  expression := Expr.eval_remainder

namespace World

/-- If all whole numbers in the arrays and in what an operation works on are in range, they are so
throughout it: in variables and arrays at every moment of what it runs, for as long as lengths are in
range as well, and in what it leaves and gives back. A row of digits comes to its decimal value exactly
if that is in range. A remainder is what a division toward zero leaves; it is in range whatever the
divisor, also for the one quotient that is not. -/
theorem integers_stay_in_range :
    (∀ (w : World) (op : Operation), w.heap.Fits → (∀ v ∈ op.operands, v.Fits) →
      op.KeepsRange w) ∧
    (∀ row, Decimal.isDigits row = true →
      ReadExactly row (Nat.ofDigits 10 (row.reverse.map Decimal.digit))) ∧
    (∀ a b, InRange a → InRange b → RemainderExact a b) ∧
    Value.remainder (-9223372036854775808) (-1) = .ok 0 := by
  refine ⟨fun w op => Operation.keepsRange op, fun row => readExactly, ?_, rfl⟩
  intro a b ha _
  exact remainderExact ha

def leastWorld : World where
  heap := (Heap.alloc {} [.integer (-9223372036854775808)]).2
  contexts := #[.ofScript "function go(a,b){c=a[0]%b;return c}".toList {}]

def divideLeast : Operation :=
  .call ⟨⟨⟨⟨0⟩, 1⟩, ⟨"go".toList, ["a".toList, "b".toList], ["c=a[0]%b".toList, "return c".toList]⟩⟩,
    ⟨0⟩⟩ [.array ⟨0⟩, .integer (-1)]

theorem integers_stay_in_range_least :
    leastWorld.heap.Fits ∧ (∀ v ∈ divideLeast.operands, v.Fits) ∧
      (∀ m ∈ divideLeast.moments leastWorld, m.Short) ∧
      divideLeast.results leastWorld = [.integer 0] ∧ divideLeast.KeepsRange leastWorld := by
  have hempty : Heap.Fits {} := by
    intro a v hv
    simp [Heap.elements] at hv
  have hheap : leastWorld.heap.Fits := Heap.fits_alloc hempty (by decide)
  have hoperands : ∀ v ∈ divideLeast.operands, v.Fits := by decide
  refine ⟨hheap, hoperands, by decide +kernel, by decide +kernel, ?_⟩
  exact integers_stay_in_range.1 leastWorld divideLeast hheap hoperands

end World

end Scriptlet
