import Scriptlet.Proofs.Heap.Sequence
import Scriptlet.Proofs.Run.Replay

namespace Scriptlet

/-- That arrays may have been made, and nothing else been done. -/
structure State.Grown (s t : State) : Prop where
  heap : s.heap.Extends t.heap
  context : t.context = s.context

namespace State.Grown

variable {s t u : State}

theorem refl (s : State) : s.Grown s :=
  ⟨s.heap.extends_refl, rfl⟩

theorem trans (hfirst : s.Grown t) (hnext : t.Grown u) : s.Grown u :=
  ⟨hfirst.heap.trans hnext.heap, hnext.context.trans hfirst.context⟩

end State.Grown

namespace Run

variable {α β : Type} {s t : State}

def Grows (x : Run α) : Prop :=
  ∀ s : State, s.Grown (x.finish s)

namespace Grows

theorem ok {x : Run α} {a : α} (h : x.Grows) (hrun : x s = .ok a t) : s.Grown t := by
  have hgrown := h s
  rwa [finish_of_ok hrun] at hgrown

theorem error {x : Run α} {halt : Halt} (h : x.Grows) (hrun : x s = .error halt t) :
    s.Grown t := by
  have hgrown := h s
  rwa [finish_of_error hrun] at hgrown

theorem ofExcept (r : Except Error α) : (Run.ofExcept r).Grows := by
  intro s
  rw [finish_ofExcept]
  exact .refl s

theorem pure (a : α) : Grows (pure a) :=
  ofExcept (.ok a)

theorem fail (reason : Error) : (Run.fail reason : Run α).Grows :=
  ofExcept (.error reason)

theorem ofValue (r : Except ValueError α) : (Run.ofValue r).Grows := by
  cases r with
  | ok a => exact pure a
  | error reason => exact fail (.value reason)

theorem reading (f : Heap → Except ValueError α) : (Run.reading f).Grows :=
  fun s => ofValue (f s.heap) s

theorem holding (q : Sequence) : (Run.changing fun h => h.hold q).Grows :=
  fun s => ⟨s.heap.extends_hold q, rfl⟩

theorem bind {x : Run α} {f : α → Run β} (hx : x.Grows) (hf : ∀ a, (f a).Grows) :
    (x >>= f).Grows := by
  intro s
  cases hrun : x s with
  | ok a t =>
    rw [finish_bind_of_ok hrun]
    exact (hx.ok hrun).trans (hf a t)
  | error halt t =>
    rw [finish_bind_of_error hrun]
    exact hx.error hrun

end Grows

end Run

namespace Expr

open Run

variable {invoke : Invocation} {frame : Frame}

theorem grows_guarded {x : Run Value} {budget : Int} (hx : x.Grows) :
    (if budget < 0 then Run.fail .nestingLimit else x).Grows := by
  split
  · exact .fail .nestingLimit
  · exact hx

/-- Calls apart, the last step of an expression is the only one that does more than look, and what it
does is to make an array. -/
theorem grows_eval (e : Expr) (hcallees : e.callees = []) (budget : Int) :
    (e.eval invoke frame budget).Grows := by
  have hfetch (x : Text) : (Run.ofExcept (frame.fetch x)).Grows := .ofExcept _
  induction e generalizing budget with
  | integer n =>
    rw [eval]
    exact grows_guarded (.pure _)
  | name x =>
    rw [eval]
    exact grows_guarded (hfetch x)
  | split r =>
    rw [eval]
    refine grows_guarded ((hfetch r).bind fun v => ?_)
    exact (Grows.ofValue v.asText).bind fun t => .holding (.singles t)
  | join r =>
    rw [eval]
    refine grows_guarded ((hfetch r).bind fun v => ?_)
    exact (Grows.ofValue v.asArray).bind fun _ => (Grows.reading _).bind fun _ => .pure _
  | length r =>
    rw [eval]
    refine grows_guarded ((hfetch r).bind fun v => ?_)
    exact (Grows.reading _).bind fun _ => .pure _
  | reverse r =>
    rw [eval]
    refine grows_guarded ((hfetch r).bind fun v => ?_)
    exact (Grows.reading _).bind fun q => .holding q.reverse
  | slice r start ih =>
    rw [eval]
    refine grows_guarded ((hfetch r).bind fun v => ?_)
    refine (ih hcallees (budget - 1)).bind fun w => (Grows.ofValue w.asInteger).bind fun n => ?_
    exact (Grows.reading _).bind fun q => .holding q
  | index r position ih =>
    rw [eval]
    refine grows_guarded ((hfetch r).bind fun v => (Grows.ofValue v.asArray).bind fun a => ?_)
    refine (ih hcallees (budget - 1)).bind fun w => (Grows.ofValue w.asInteger).bind fun n => ?_
    exact .reading _
  | remainder left right ihl ihr =>
    obtain ⟨hleft, hright⟩ := List.append_eq_nil_iff.mp hcallees
    rw [eval]
    refine grows_guarded ((ihl hleft budget).bind fun v => ?_)
    refine (Grows.ofValue v.asInteger).bind fun m => (ihr hright budget).bind fun w => ?_
    exact (Grows.ofValue w.asInteger).bind fun n => (Grows.ofValue _).bind fun _ => .pure _
  | call f arguments => cases hcallees
  | malformed reason =>
    rw [eval]
    exact grows_guarded (.fail _)

end Expr

/-! ### Statements that fail -/

namespace Run

variable {α β : Type} {x : Run α}

def GrowsIfFails (x : Run α) : Prop :=
  ∀ {s halt t}, x s = .error halt t → State.Grown s t

theorem Grows.ifFails (h : x.Grows) : x.GrowsIfFails :=
  fun hrun => h.error hrun

theorem Grows.bindIfFails {f : α → Run β} (hx : x.Grows) (hf : ∀ a, (f a).GrowsIfFails) :
    (x >>= f).GrowsIfFails := by
  intro s halt t hrun
  cases hfirst : x s with
  | ok a u =>
    rw [bind_of_ok hfirst] at hrun
    exact (hx.ok hfirst).trans (hf a hrun)
  | error reason u =>
    rw [bind_of_error hfirst] at hrun
    cases hrun
    exact hx.error hfirst

end Run

namespace Statement

open Run

variable {invoke : Invocation} {frame : Frame} {s t : State}

/-- In an indexed assignment nothing can fail after the write. -/
theorem growsIfFails_exec (statement : Statement) (hcallees : statement.callees = [])
    (budget : Int) : (statement.exec invoke frame budget).GrowsIfFails := by
  cases statement with
  | assign target value =>
    exact ((Expr.grows_eval _ hcallees budget).bind fun v => .pure _).ifFails
  | assignIndex target index value =>
    obtain ⟨hindex, hvalue⟩ := List.append_eq_nil_iff.mp hcallees
    refine (Expr.grows_eval _ hindex budget).bindIfFails fun position => ?_
    refine (Grows.ofValue position.asInteger).bindIfFails fun n => ?_
    refine (Expr.grows_eval _ hvalue budget).bindIfFails fun v => ?_
    refine (Grows.ofExcept (frame.fetch target)).bindIfFails fun held => ?_
    refine (Grows.ofValue held.asArray).bindIfFails fun a => ?_
    refine (Grows.reading _).bindIfFails fun _ => ?_
    intro s halt t hrun
    cases hrun
  | result value =>
    exact ((Expr.grows_eval _ hcallees budget).bind fun v => .pure _).ifFails

theorem growsIfFails_execText (text : Text) (hcallees : calleesOfText text = []) (budget : Int) :
    (execText invoke frame budget text).GrowsIfFails := by
  unfold calleesOfText at hcallees
  unfold execText
  cases hread : ofText text with
  | ok statement =>
    rw [hread] at hcallees
    exact growsIfFails_exec statement hcallees budget
  | error reason => exact (Grows.fail _).ifFails

end Statement

end Scriptlet
