import Scriptlet.Proofs.Run.Replay
import Scriptlet.Proofs.Run.Trace

namespace Scriptlet

open Run

def Recorded (states : List State) (moments : List Scope) : Prop :=
  ∀ t ∈ states, ∃ m ∈ moments, m.state = t

/-- That every one of the states is that of a moment, or the one that a run ends in. -/
def RecordedUpTo {α : Type} (x : Run α) (s : State) (states : List State) (moments : List Scope) :
    Prop :=
  ∀ t ∈ states, (∃ m ∈ moments, m.state = t) ∨ t = x.finish s

section Lists

variable {α β : Type} {states more : List State} {moments others : List Scope} {s : State}

theorem RecordedUpTo.bind {x : Run α} {f : α → Run β} {next : α → Trace} {next' : α → Moments}
    (h : ∀ a t, RecordedUpTo (f a) t (next a t) (next' a t)) :
    RecordedUpTo (x >>= f) s (x.onward next s) (x.followedBy next' s) := by
  unfold Run.onward Run.followedBy
  cases hx : x s with
  | error halt t => simp [RecordedUpTo]
  | ok a t =>
    intro u hu
    rw [finish_bind_of_ok hx]
    exact h a t u hu

namespace Recorded

theorem nil : Recorded [] moments := by
  simp [Recorded]

theorem append (h : Recorded states moments) (hmore : Recorded more others) :
    Recorded (states ++ more) (moments ++ others) := by
  intro t ht
  rcases List.mem_append.mp ht with ht | ht
  · obtain ⟨m, hm, hstate⟩ := h t ht
    exact ⟨m, List.mem_append_left _ hm, hstate⟩
  · obtain ⟨m, hm, hstate⟩ := hmore t ht
    exact ⟨m, List.mem_append_right _ hm, hstate⟩

theorem begun (m : Scope) (h : Recorded states moments) : Recorded states (m :: moments) := by
  intro t ht
  obtain ⟨m', hm', hstate⟩ := h t ht
  exact ⟨m', List.mem_cons_of_mem _ hm', hstate⟩

theorem upTo (h : Recorded states moments) (x : Run α) : RecordedUpTo x s states moments :=
  fun t ht => .inl (h t ht)

theorem onward {x : Run α} {next : α → Trace} {next' : α → Moments}
    (h : ∀ a t, Recorded (next a t) (next' a t)) :
    Recorded (x.onward next s) (x.followedBy next' s) := by
  unfold Run.onward Run.followedBy
  cases x s with
  | error halt t => exact nil
  | ok a t => exact h a t

end Recorded

/-- The state that a run ends in is that of the moment at which it ends. -/
theorem RecordedUpTo.noted {x : Run α} {m : Scope} (h : RecordedUpTo x s states moments)
    (hm : m.state = x.finish s) : Recorded (states ++ [x.finish s]) (moments ++ [m]) := by
  have hlast : ∃ m' ∈ moments ++ [m], m'.state = x.finish s := ⟨m, by simp, hm⟩
  intro t ht
  rcases List.mem_append.mp ht with ht | ht
  · rcases h t ht with ⟨m', hm', hstate⟩ | rfl
    · exact ⟨m', List.mem_append_left _ hm', hstate⟩
    · exact hlast
  · obtain rfl := List.mem_singleton.mp ht
    exact hlast

end Lists

def RecordedByCalls (invoke : Invocation) (inside : CallTrace) (within : CallMoments) : Prop :=
  ∀ f args s, RecordedUpTo (invoke f args) s (inside f args s) (within f args s)

section Calls

variable {invoke : Invocation} {inside : CallTrace} {within : CallMoments} {frame : Frame}
variable {budget : Int}

theorem Expr.recorded_trace (hcalls : RecordedByCalls invoke inside within) (e : Expr) (s : State) :
    Recorded (e.trace invoke inside frame budget s) (e.moments invoke within frame budget s) := by
  induction e generalizing budget s with
  | integer | name | split | join | length | reverse | malformed =>
    rw [trace, moments]
    refine RecordedUpTo.noted (Recorded.upTo ?_ _) rfl
    split <;> exact .nil
  | slice r start ih =>
    rw [trace, moments]
    refine RecordedUpTo.noted (Recorded.upTo ?_ _) rfl
    split
    · exact .nil
    · exact .onward fun _ _ => ih _
  | index r position ih =>
    rw [trace, moments]
    refine RecordedUpTo.noted (Recorded.upTo ?_ _) rfl
    split
    · exact .nil
    · exact .onward fun _ _ => .onward fun _ _ => ih _
  | remainder left right ihl ihr =>
    rw [trace, moments]
    refine RecordedUpTo.noted (Recorded.upTo ?_ _) rfl
    split
    · exact .nil
    · exact (ihl s).append (.onward fun _ _ => .onward fun _ _ => ihr _)
  | call f arguments =>
    rw [trace, moments]
    refine RecordedUpTo.noted ?_ rfl
    rw [eval]
    split
    · exact Recorded.nil.upTo _
    · exact .bind fun callee _ => .bind fun args t => hcalls callee args t

namespace Statement

theorem state_momentAfter (x : Run (Value × Frame)) (s : State) :
    (momentAfter frame x s).state = x.finish s := by
  unfold momentAfter Run.finish
  cases x s <;> rfl

theorem recorded_traceText (hcalls : RecordedByCalls invoke inside within) (text : Text) (s : State) :
    Recorded (traceText invoke inside frame budget text s)
      (momentsOfText invoke within frame budget text s) := by
  unfold traceText momentsOfText
  cases ofText text with
  | error reason => exact .nil
  | ok statement =>
    refine RecordedUpTo.noted (Recorded.upTo ?_ _) (state_momentAfter _ _)
    cases statement with
    | assign target value => exact Expr.recorded_trace hcalls _ s
    | assignIndex target index value =>
      refine (Expr.recorded_trace hcalls _ s).append ?_
      exact .onward fun _ _ => .onward fun _ _ => Expr.recorded_trace hcalls _ _
    | result value => exact Expr.recorded_trace hcalls _ s

end Statement

theorem Function.recorded_traceStatements (hcalls : RecordedByCalls invoke inside within)
    (statements : List Text) (frame : Frame) (s : State) :
    Recorded (traceStatements invoke inside budget frame statements s)
      (momentsOfStatements invoke within budget frame statements s) := by
  induction statements generalizing frame s with
  | nil => exact .nil
  | cons text rest ih =>
    exact (Statement.recorded_traceText hcalls text s).append (.onward fun after t => ih after.2 t)

end Calls

namespace Function

/-- The induction is on how deep calls may nest. -/
theorem recorded_traceInvoke (depth : Nat) :
    RecordedByCalls (invoke depth) (traceInvoke depth) (momentsOfInvoke depth) := by
  induction depth with
  | zero => exact fun f args s => Recorded.nil.upTo _
  | succ depth ih =>
    intro f args s t ht
    rcases List.mem_append.mp ht with ht | ht
    · refine .inl ?_
      have hbody : Recorded _ (momentsOfInvoke (depth + 1) f args s) :=
        .onward fun frame u => .begun _ (.onward fun limits v =>
          recorded_traceStatements ih f.statements frame v)
      exact hbody t ht
    · exact .inr (List.mem_singleton.mp ht)

theorem recorded_trace : RecordedByCalls call trace moments :=
  fun f args _ => .bind fun limits t => recorded_traceInvoke limits.callDepth f args t

end Function

namespace Run

theorem recorded_traceStatement (frame : Frame) (budget : Int) (text : Text) (s : State) :
    Recorded (traceStatement frame budget text s) (momentsOfStatement frame budget text s) :=
  Statement.recorded_traceText Function.recorded_trace text s

theorem recorded_traceExpression (frame : Frame) (budget : Int) (text : Text) (s : State) :
    Recorded (traceExpression frame budget text s) (momentsOfExpression frame budget text s) :=
  Expr.recorded_trace Function.recorded_trace (Expr.ofText text) s

end Run

end Scriptlet
