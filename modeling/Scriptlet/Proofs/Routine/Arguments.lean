import Scriptlet.Proofs.Routine.Built
import Scriptlet.Proofs.Routine.Descent
import Scriptlet.Proofs.World.Footprint

/-!
What a routine leaves of the arrays that it is given. It works on copies of the argument arrays, but
the copies hold the same elements, so an array nested in an argument is open to the script. Which
arrays are safe is settled exactly: those that are not nested in an argument array, and those that
have no elements. Any other one is changed by some script.
-/

namespace Scriptlet

def Heap.lengths : Heap.Invariant where
  Holds _ := True
  Later := Heap.KeepsLengths
  Held _ _ := True
  later_refl := Heap.keepsLengths_refl
  later_trans := Heap.KeepsLengths.trans
  held_later _ _ := trivial
  held_scalar _ := trivial
  held_element _ _ _ := trivial
  make := by
    intro h items _ _
    exact ⟨trivial, Heap.keepsLengths_alloc h items, trivial⟩
  write := by
    intro h a index v _ _ _ _
    exact ⟨trivial, Heap.keepsLengths_put h a index.toNat v⟩

namespace Routine

variable {w : World} {args : List Value} {a : ArrayId}

theorem keepsLengths_eval (r : Routine) (w : World) (args : List Value) :
    w.heap.KeepsLengths (r.eval w args).2.heap := by
  have hpath : Heap.lengths.Path w.heap (r.heaps w args) (r.eval w args).2.heap :=
    path_eval trivial fun v _ => Heap.Invariant.copyable_of_held trivial
  exact hpath.later

/-- An array that no run of a routine on these arguments can change. -/
def Safe (h : Heap) (args : List Value) (a : ArrayId) : Prop :=
  h.InReach (h.elementsOf args) a → h.elements a = []

theorem elements_eval_of_safe (r : Routine) (ha : a.index < w.heap.size)
    (hsafe : Safe w.heap args a) : (r.eval w args).2.heap.elements a = w.heap.elements a := by
  by_cases hreach : w.heap.InReach (w.heap.elementsOf args) a
  · have hempty := hsafe hreach
    have hlength := (keepsLengths_eval r w args).2 a ha
    rw [hempty, List.length_nil] at hlength
    rw [hempty, List.length_eq_zero_iff.mp hlength]
  · exact (footprint_eval r w args).unchanged a ha hreach

end Routine

/-! ### What the script is given -/

namespace Heap

theorem extends_copyArrays (h : Heap) (args : List Value) :
    h.Extends (h.copyArrays args).2 := by
  induction args generalizing h with
  | nil => exact h.extends_refl
  | cons arg args ih =>
    cases arg with
    | array a => exact (h.extends_alloc (h.elements a)).trans (ih _)
    | _ => exact ih h

/-- The copy of an argument array has the elements that the array had at the beginning. -/
theorem exists_copy {before h : Heap} {args : List Value} {i : Nat} {a : ArrayId}
    (hextends : before.Extends h) (ha : a.index < before.size)
    (harg : args[i]? = some (.array a)) :
    ∃ c, (h.copyArrays args).1[i]? = some (.array c) ∧
      (h.copyArrays args).2.elements c = before.elements a := by
  induction args generalizing h i with
  | nil => simp at harg
  | cons arg args ih =>
    cases i with
    | zero =>
      obtain rfl : arg = .array a := by simpa using harg
      have hmade := h.elements_alloc_self (h.elements a)
      have hrest := (h.alloc (h.elements a)).2.extends_copyArrays args
      refine ⟨(h.alloc (h.elements a)).1, rfl, ?_⟩
      have hkept := hrest.2 (h.alloc (h.elements a)).1 (by simp [alloc, size])
      exact hkept.trans (hmade.trans (hextends.2 a ha))
    | succ i =>
      have hrest : args[i]? = some (.array a) := by simpa using harg
      cases arg with
      | array b => exact ih (hextends.trans (h.extends_alloc (h.elements b))) hrest
      | _ => exact ih hextends hrest

end Heap

/-- A parameter that is named over and over has the last argument that is bound to it. -/
theorem Frame.bindParams_replicate {function x : Text} {frame : Frame} {args : List Value} {i : Nat}
    {v : Value} (hv : args[i]? = some v) :
    ∃ bound, bindParams function frame (List.replicate (i + 1) x) args = .ok bound ∧
      bound.fetch x = .ok v := by
  induction i generalizing frame args with
  | zero =>
    cases args with
    | nil => simp at hv
    | cons arg args =>
      obtain rfl : arg = v := by simpa using hv
      exact ⟨frame.set x arg, rfl, by simp [fetch, get?_set]⟩
  | succ i ih =>
    cases args with
    | nil => simp at hv
    | cons arg args => exact ih (by simpa using hv)

/-- A call whose statements all succeed ends in the state that they lead to. -/
theorem Function.finish_call {f : Function} {args : List Value} {frame last : Frame}
    {s u : State} {depth : Nat} (hdepth : s.context.limits.callDepth = depth + 1)
    (hframe : Frame.ofCall f args = .ok frame)
    (hsteps : Steps (fun g vs => invoke depth g vs) s.context.limits.nestingBudget f.statements
      frame s last u) :
    (f.call args).finish s = u := by
  obtain ⟨r, hbody⟩ := runStatements_of_steps hsteps none
  have hcall : f.call args s = f.invoke (depth + 1) args s := by
    show f.invoke s.context.limits.callDepth args s = _
    rw [hdepth]
  unfold Run.finish
  rw [hcall, invoke, Run.bind_of_ok (Run.ofExcept_eq_ok.mpr ⟨hframe, rfl⟩)]
  have hlimits : Run.limits s = .ok s.context.limits s := rfl
  rw [Run.bind_of_ok hlimits, Run.bind_of_ok hbody]
  cases r <;> rfl

namespace Routine

/-- A routine whose statements all succeed leaves the heap that they lead to. -/
theorem exists_eval_of_steps (w : World) (args : List Value) (limits : Limits) {f : Function}
    {depth : Nat} (P : Heap → Prop) (hf : f.Declarable)
    (hdepth : limits.callDepth = depth + 1)
    (hbody : ∀ s : State, s.heap = (w.heap.copyArrays args).2 →
      ∃ frame last u, Frame.ofCall f (w.heap.copyArrays args).1 = .ok frame ∧
        Function.Steps (fun g vs => Function.invoke depth g vs) limits.nestingBudget f.statements
          frame s last u ∧ P u.heap) :
    ∃ r w', ofScript w f.declared f.name limits = (.ok r, w') ∧ w'.heap = w.heap ∧
      P (r.eval w' args).2.heap := by
  obtain ⟨r, w', hscript, hheap, hbuilt, -⟩ :=
    ofScript_of_extract w limits (Function.extract_declared hf)
  refine ⟨r, w', hscript, hheap, ?_⟩
  let s := Built.entryState r w' args
  have hs : s.heap = (w.heap.copyArrays args).2 := by rw [← hheap]; rfl
  have hslimits : s.context.limits = limits := hbuilt.opened.faithful.limits
  obtain ⟨frame, last, u, hframe, hsteps, hP⟩ := hbody s hs
  rw [← hheap] at hframe
  rw [← hslimits] at hsteps hdepth
  rw [hbuilt.heap_eval_eq, Function.finish_call hdepth hframe hsteps]
  exact hP

end Routine

namespace Descent

/-- The function that goes down by the given statements, from its argument at a place, and then
overwrites an element. -/
def intruder (i : Nat) (ts : List Text) (n : Nat) : Function where
  name := "go".toList
  params := List.replicate (i + 1) cursor
  statements := ts ++ [overwriteFirst n]

theorem declarable_intruder {i n : Nat} {ts : List Text}
    (hts : ∀ t ∈ ts, t = dropFirst ∨ t = enterFirst) : (intruder i ts n).Declarable where
  params_ne := by simp [intruder]
  params := by
    intro p hp
    obtain rfl : p = cursor := List.eq_of_mem_replicate hp
    decide
  statements_ne := by simp [intruder]
  statements := by
    intro t ht
    rcases List.mem_append.mp ht with ht | ht
    · rcases hts t ht with rfl | rfl <;> decide
    · obtain rfl := List.mem_singleton.mp ht
      have hsemicolon : ';' ∉ Decimal.ofNat n := Text.not_mem_decimal rfl n
      have hbrace : '}' ∉ Decimal.ofNat n := Text.not_mem_decimal rfl n
      have htext : overwriteFirst n = ['a', '[', '0', ']', '='] ++ Decimal.ofNat n := rfl
      simp [htext, hsemicolon, hbrace]

end Descent

namespace Routine

open Descent

variable {w : World} {args : List Value} {a : ArrayId}

/-- An array with elements that is nested in an argument array is changed by some script: one that
goes from the copy of the argument down to the array and overwrites its first element. -/
theorem exists_script_changing (hreach : w.heap.InReach (w.heap.elementsOf args) a)
    (hne : w.heap.elements a ≠ []) {limits : Limits} (hbudget : 1 ≤ limits.nestingBudget)
    (hdepth : 1 ≤ limits.callDepth) :
    ∃ script name r w', ofScript w script name limits = (.ok r, w') ∧ w'.heap = w.heap ∧
      (r.eval w' args).2.heap.elements a ≠ w.heap.elements a := by
  obtain ⟨b, hb, hnested⟩ := hreach
  obtain ⟨v, hv, hbv⟩ := List.mem_flatMap.mp hb
  obtain ⟨c, rfl, hbc⟩ : ∃ c, v = .array c ∧ Value.array b ∈ w.heap.elements c := by
    cases v <;> simp at hbv
    exact ⟨_, rfl, hbv⟩
  obtain ⟨i, hi⟩ := List.mem_iff_getElem?.mp hv
  obtain ⟨depth, hdepth⟩ := Nat.exists_eq_add_of_le' hdepth
  obtain ⟨ts, n, hts, hchange⟩ :=
    exists_steps_change (fun g vs => Function.invoke depth g vs) hbudget hbc hnested hne
  have heval := exists_eval_of_steps w args limits (f := intruder i ts n)
    (fun h => h.elements a ≠ w.heap.elements a) (declarable_intruder hts) hdepth
  refine ⟨_, _, heval ?_⟩
  intro s hs
  obtain ⟨copy, hcopy, hitems⟩ :=
    Heap.exists_copy w.heap.extends_refl (Heap.index_lt_of_mem hbc) hi
  obtain ⟨frame, hframe, hfetch⟩ : ∃ frame,
      Frame.ofCall (intruder i ts n) (w.heap.copyArrays args).1 = .ok frame ∧
        frame.fetch cursor = .ok (.array copy) := Frame.bindParams_replicate hcopy
  have hbegin : w.heap.Extends s.heap := hs ▸ w.heap.extends_copyArrays args
  obtain ⟨last, u, hsteps, hdiffers⟩ := hchange hbegin hfetch (hs ▸ hitems)
  exact ⟨frame, last, u, hframe, hsteps, hdiffers⟩

/-- Exactly the arrays that are safe stay as they are under every routine: those that are not nested
in an argument array, and the empty ones. Each of the others is changed by some script's entry
function, on any limits under which one index can be read. -/
theorem unchanged_iff_safe (ha : a.index < w.heap.size) :
    ((∀ (contexts : Array Context) (r : Routine),
        (r.eval { w with contexts } args).2.heap.elements a = w.heap.elements a) ↔
      Safe w.heap args a) ∧
    (¬ Safe w.heap args a → ∀ limits : Limits, 1 ≤ limits.nestingBudget → 1 ≤ limits.callDepth →
      ∃ script name r w', ofScript w script name limits = (.ok r, w') ∧
        (r.eval w' args).2.heap.elements a ≠ w.heap.elements a) := by
  have hchanged : ¬ Safe w.heap args a → ∀ limits : Limits, 1 ≤ limits.nestingBudget →
      1 ≤ limits.callDepth →
      ∃ script name r w', ofScript w script name limits = (.ok r, w') ∧ w'.heap = w.heap ∧
        (r.eval w' args).2.heap.elements a ≠ w.heap.elements a := by
    intro hunsafe limits hbudget hdepth
    obtain ⟨hreach, hne⟩ := Classical.not_imp.mp hunsafe
    exact exists_script_changing hreach hne hbudget hdepth
  refine ⟨⟨?_, ?_⟩, ?_⟩
  · intro hkept
    apply Classical.byContradiction
    intro hunsafe
    obtain ⟨_, _, r, w', -, hheap, hdiffers⟩ := hchanged hunsafe {} (by decide) (by decide)
    apply hdiffers
    rw [← hkept w'.contexts r, ← hheap]
  · intro hsafe contexts r
    exact elements_eval_of_safe (w := { w with contexts }) r ha hsafe
  · intro hunsafe limits hbudget hdepth
    obtain ⟨script, name, r, w', hscript, -, hdiffers⟩ := hchanged hunsafe limits hbudget hdepth
    exact ⟨script, name, r, w', hscript, hdiffers⟩

theorem not_safe_inner : ¬ Safe nestedWorld.heap [.array ⟨1⟩] ⟨0⟩ := by
  intro hsafe
  have hreach : nestedWorld.heap.InReach (nestedWorld.heap.elementsOf [.array ⟨1⟩]) ⟨0⟩ :=
    Heap.inReach_of_mem (by decide)
  have hempty := hsafe hreach
  revert hempty
  decide

theorem safe_outer : Safe nestedWorld.heap [.array ⟨1⟩] ⟨1⟩ :=
  fun hreach => absurd hreach nestedWorld_outer_not_inReach

/-- Of two arrays, one inside the other, the outer is safe when it is given to a routine and the
inner is not. -/
theorem unchanged_iff_safe_nested :
    (∀ (contexts : Array Context) (r : Routine),
      (r.eval { nestedWorld with contexts } [.array ⟨1⟩]).2.heap.elements ⟨1⟩ =
        nestedWorld.heap.elements ⟨1⟩) ∧
    ∃ script name r w', ofScript nestedWorld script name {} = (.ok r, w') ∧
      (r.eval w' [.array ⟨1⟩]).2.heap.elements ⟨0⟩ ≠ nestedWorld.heap.elements ⟨0⟩ := by
  have houter : (⟨1⟩ : ArrayId).index < nestedWorld.heap.size := by decide
  have hinner : (⟨0⟩ : ArrayId).index < nestedWorld.heap.size := by decide
  refine ⟨(unchanged_iff_safe houter).1.mpr safe_outer, ?_⟩
  exact (unchanged_iff_safe hinner).2 not_safe_inner {} (by decide) (by decide)

theorem exists_steps_overwrite_inner (invoke : Invocation) {s : State} {frame : Frame}
    (hs : s.heap = (nestedWorld.heap.copyArrays [.array ⟨1⟩]).2)
    (hframe : frame.fetch cursor = .ok (.array ⟨2⟩)) :
    ∃ last u, Function.Steps invoke 20 [enterFirst, overwriteFirst 0] frame s last u ∧
      u.heap.elements ⟨0⟩ = [.integer 0] := by
  have hcopy : s.heap.elements ⟨2⟩ = [.array ⟨0⟩] := by rw [hs]; decide
  have hinner : s.heap.elements ⟨0⟩ = [.integer 1] := by rw [hs]; decide
  have henter : Function.Steps invoke 20 [enterFirst] frame s (frame.set cursor (.array ⟨0⟩)) s :=
    step_enterFirst (by decide) hframe hcopy
  have hwrite : Function.Steps invoke 20 [overwriteFirst 0] (frame.set cursor (.array ⟨0⟩)) s _ _ :=
    step_overwriteFirst (by decide) (by decide) (fetch_set frame _) (by simp [hinner])
  refine ⟨_, _, henter.append hwrite, ?_⟩
  simp [Heap.elements_put, hinner]

/-- The script that overwrites the number in the inner array, and the number that is there then. -/
theorem inner_array_overwritten :
    ∃ r w', ofScript nestedWorld "function go(a){a=a[0];a[0]=0}".toList "go".toList {} =
        (.ok r, w') ∧
      nestedWorld.heap.InReach [.array ⟨1⟩] ⟨0⟩ ∧
      nestedWorld.heap.elements ⟨0⟩ = [.integer 1] ∧
      (r.eval w' [.array ⟨1⟩]).2.heap.elements ⟨0⟩ = [.integer 0] := by
  have hscript : (intruder 0 [enterFirst] 0).declared =
      "function go(a){a=a[0];a[0]=0}".toList := by decide
  have hf : (intruder 0 [enterFirst] 0).Declarable := declarable_intruder (by simp)
  have hdepth : ({} : Limits).callDepth = 999999 + 1 := rfl
  have heval := exists_eval_of_steps nestedWorld [.array ⟨1⟩] {}
    (fun h => h.elements ⟨0⟩ = [.integer 0]) hf hdepth
  rw [hscript] at heval
  obtain ⟨r, w', hcompiled, -, hafter⟩ := heval (by
    intro s hs
    obtain ⟨last, u, hsteps, hzero⟩ :=
      exists_steps_overwrite_inner _ hs (fetch_set {} (.array ⟨2⟩))
    exact ⟨_, last, u, rfl, hsteps, hzero⟩)
  have hreach : nestedWorld.heap.InReach [.array ⟨1⟩] ⟨0⟩ :=
    ⟨⟨1⟩, by simp, Heap.Nested.child (by decide)⟩
  exact ⟨r, w', hcompiled, hreach, by decide, hafter⟩

end Routine

end Scriptlet
