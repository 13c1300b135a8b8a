import Scriptlet.Proofs.Context.History
import Scriptlet.Proofs.Run.Congruence
import Scriptlet.Proofs.Run.Trace

/-!
A run does nothing to its context but look up names. The context that it leaves, also when it fails
in the middle, is the one that comes of looking up the same names in the same order from the outside.

So runs in two contexts of one script do the same from the same heap, lookup by lookup, whatever the one
has compiled already, as long as the other has the text. Only a released context can stop earlier, and
then because of a name that it does not know.
-/

namespace Scriptlet

open Run

def Context.lookedUp (names : List Text) : List Context.Event :=
  names.map .lookup

namespace Run

variable {α β : Type} {s : State}

theorem finish_of_ok {x : Run α} {a : α} {t : State} (h : x s = .ok a t) : x.finish s = t := by
  unfold finish
  rw [h]

theorem finish_of_error {x : Run α} {halt : Halt} {t : State} (h : x s = .error halt t) :
    x.finish s = t := by
  unfold finish
  rw [h]

theorem finish_bind_of_ok {x : Run α} {a : α} {t : State} (h : x s = .ok a t) (f : α → Run β) :
    (x >>= f).finish s = (f a).finish t := by
  unfold finish
  rw [bind_of_ok h]

theorem finish_bind_of_error {x : Run α} {halt : Halt} {t : State} (h : x s = .error halt t)
    (f : α → Run β) : (x >>= f).finish s = t :=
  finish_of_error (bind_of_error h)

theorem finish_ofExcept (r : Except Error α) (s : State) : (ofExcept r).finish s = s := by
  cases r <;> rfl

theorem context_finish_plain {x : Run α} (hx : x.Plain) (s : State) :
    (x.finish s).context = s.context := by
  obtain ⟨h, c⟩ := s
  obtain ⟨r, h', -, hrun⟩ := hx h
  have hfinish : x.finish ⟨h, c⟩ = (ofExcept r).finish ⟨h', c⟩ := by
    unfold finish
    rw [hrun c]
  rw [hfinish, finish_ofExcept]

/-- The context after a run is the one before it with the names looked up that the run looks up. -/
def replay : Congruence where
  Rel x _ _ names := ∀ s, (x.finish s).context = s.context.after (Context.lookedUp (names s))
  plain hx s := context_finish_plain hx s
  fail _ _ _ := rfl
  limits _ := rfl
  bind := by
    intro α β x y f g written more names next hx hf s
    have hfirst := hx s
    cases hrun : x s with
    | error halt t =>
      rw [finish_of_error hrun] at hfirst
      rw [finish_bind_of_error hrun, hfirst]
      simp [Lookups.andThen, hrun]
    | ok a t =>
      rw [finish_of_ok hrun] at hfirst
      rw [finish_bind_of_ok hrun, hf a t, hfirst, ← Context.after_append]
      simp [Lookups.andThen, hrun, Context.lookedUp]

theorem replay_unconditional : replay.Unconditional where
  resolve name s := by
    show ((Run.resolve name).finish s).context = (s.context.resolve name).2
    unfold finish
    rw [resolve_eq]
    cases (s.context.resolve name).1 <;> rfl
  tooDeep _ := rfl
  forget h := h

theorem context_call (f : Function) (args : List Value) (s : State) :
    ((f.call args).finish s).context = s.context.after (Context.lookedUp (f.lookups args s)) :=
  Function.related_call replay_unconditional f args s

theorem context_statement (frame : Frame) (budget : Int) (t : Text) (s : State) :
    ((statement frame budget t).finish s).context =
      s.context.after (Context.lookedUp (lookupsOfStatement frame budget t s)) :=
  related_statement replay_unconditional frame budget t s

theorem context_expression (frame : Frame) (budget : Int) (t : Text) (s : State) :
    ((expression frame budget t).finish s).context =
      s.context.after (Context.lookedUp (lookupsOfExpression frame budget t s)) :=
  related_expression replay_unconditional frame budget t s

end Run

/-! ### Two contexts of one script -/

namespace Context

variable {script : Text} {limits : Limits} {start c d : Context}

theorem script_resolve (c : Context) (name : Text) : (c.resolve name).2.script = c.script := by
  obtain ⟨r, d, -, hrun, h⟩ := c.resolution name
  rw [hrun]
  cases h <;> rfl

/-- Two contexts of one script. The first has been in use since `start`, the second has its text. -/
structure Corresponds (script : Text) (limits : Limits) (start c d : Context) : Prop where
  used : c.Faithful script limits
  other : d.Faithful script limits
  text : d.script = some script
  script_eq : c.script = start.script
  still : start.script = none → c = start

/-- A lookup goes the same way in both, unless the first was released before it knew the name. -/
theorem Corresponds.resolve (h : Corresponds script limits start c d) (name : Text) :
    ((c.resolve name).1 = (d.resolve name).1 ∧
      Corresponds script limits start (c.resolve name).2 (d.resolve name).2) ∨
    start.script = none ∧ start.compiled? name = none ∧
      (c.resolve name).1 = .error (.contextReleased name) := by
  have hother := h.other.resolve_eq_extract h.text name
  have htext : (d.resolve name).2.script = some script := (d.script_resolve name).trans h.text
  have hscript : (c.resolve name).2.script = start.script :=
    (c.script_resolve name).trans h.script_eq
  rcases h.used.text with hc | hc
  · left
    refine ⟨(h.used.resolve_eq_extract hc name).trans hother.symm, ?_⟩
    refine ⟨h.used.resolve name, h.other.resolve name, htext, hscript, fun hnone => ?_⟩
    rw [← h.script_eq, hc] at hnone
    cases hnone
  · -- Without its text the first context has not changed since, so a name is unknown as it was then.
    have hreleased : start.script = none := h.script_eq ▸ hc
    obtain rfl := h.still hreleased
    cases hknown : c.compiled? name with
    | none => exact .inr ⟨hc, rfl, by rw [resolve_of_released hc hknown]⟩
    | some f =>
      left
      rw [resolve_of_compiled? hknown, hother, h.used.extract_eq hknown]
      exact ⟨rfl, h.used, h.other.resolve name, htext, rfl, fun _ => rfl⟩

end Context

namespace Run

variable {α β : Type}

def outcome (x : Run α) (s : State) : Except Halt α :=
  match x s with
  | .ok a _ => .ok a
  | .error halt _ => .error halt

theorem outcome_of_ok {x : Run α} {a : α} {s t : State} (h : x s = .ok a t) :
    x.outcome s = .ok a := by
  unfold outcome
  rw [h]

theorem outcome_of_error {x : Run α} {halt : Halt} {s t : State} (h : x s = .error halt t) :
    x.outcome s = .error halt := by
  unfold outcome
  rw [h]

theorem outcome_bind_of_ok {x : Run α} {a : α} {s t : State} (h : x s = .ok a t) (f : α → Run β) :
    (x >>= f).outcome s = (f a).outcome t := by
  unfold outcome
  rw [bind_of_ok h]

theorem outcome_bind_of_error {x : Run α} {halt : Halt} {s t : State} (h : x s = .error halt t)
    (f : α → Run β) : (x >>= f).outcome s = .error halt :=
  outcome_of_error (bind_of_error h)

/-- Results of two runs that end alike: with the same outcome and heap, in contexts that correspond.
Otherwise the first has failed in a way that is excused. -/
inductive Matched (R : Context → Context → Prop) (Excused : Halt → Prop) :
    EStateM.Result Halt State α → EStateM.Result Halt State α → Prop where
  | value {a : α} {h : Heap} {c d : Context} : R c d →
    Matched R Excused (.ok a ⟨h, c⟩) (.ok a ⟨h, d⟩)
  | failure {halt : Halt} {h : Heap} {c d : Context} : R c d →
    Matched R Excused (.error halt ⟨h, c⟩) (.error halt ⟨h, d⟩)
  | excused {halt : Halt} {s : State} {r : EStateM.Result Halt State α} : Excused halt →
    Matched R Excused (.error halt s) r

theorem Matched.outcome_eq {R : Context → Context → Prop} {Excused : Halt → Prop} {x y : Run α}
    {s t : State} (h : Matched R Excused (x s) (y t)) :
    (x.outcome s = y.outcome t ∧ (x.finish s).heap = (y.finish t).heap) ∨
      ∃ halt, Excused halt ∧ x.outcome s = .error halt := by
  unfold outcome finish
  generalize x s = r, y t = r' at h
  cases h with
  | value | failure => exact .inl ⟨rfl, rfl⟩
  | excused hexcused => exact .inr ⟨_, hexcused, rfl⟩

def TooLate (start : Context) (halt : Halt) : Prop :=
  start.script = none ∧ ∃ name, start.compiled? name = none ∧ halt = .error (.contextReleased name)

def matching (script : Text) (limits : Limits) (start : Context) : Congruence where
  Rel x y _ _ := ∀ h c d, Context.Corresponds script limits start c d →
    Matched (Context.Corresponds script limits start) (TooLate start) (x ⟨h, c⟩) (y ⟨h, d⟩)
  plain := by
    intro α x hx h c d hcd
    obtain ⟨r, h', -, hrun⟩ := hx h
    rw [hrun c, hrun d]
    cases r with
    | ok a => exact .value hcd
    | error reason => exact .failure hcd
  fail _ _ _ _ _ hcd := .failure hcd
  limits := by
    intro h c d hcd
    have hlimits : c.limits = d.limits := hcd.used.limits.trans hcd.other.limits.symm
    show Matched _ _ (.ok c.limits ⟨h, c⟩) (.ok d.limits ⟨h, d⟩)
    rw [hlimits]
    exact .value hcd
  bind := by
    intro α β x y f g written more names next hx hf h c d hcd
    have hfirst := hx h c d hcd
    generalize hxs : x ⟨h, c⟩ = r, hys : y ⟨h, d⟩ = r' at hfirst
    cases hfirst with
    | value hnext =>
      rw [bind_of_ok hxs, bind_of_ok hys]
      exact hf _ _ _ _ hnext
    | failure hnext =>
      rw [bind_of_error hxs, bind_of_error hys]
      exact .failure hnext
    | excused hexcused =>
      rw [bind_of_error hxs]
      exact .excused hexcused

theorem matching_unconditional (script : Text) (limits : Limits) (start : Context) :
    (matching script limits start).Unconditional where
  resolve := by
    intro name h c d hcd
    rw [resolve_eq, resolve_eq]
    dsimp only
    rcases hcd.resolve name with ⟨hsame, hnext⟩ | ⟨hreleased, hunknown, hlate⟩
    · rw [hsame]
      cases (d.resolve name).1 with
      | ok f => exact .value hnext
      | error reason => exact .failure hnext
    · rw [hlate]
      exact .excused ⟨hreleased, name, hunknown, rfl⟩
  tooDeep _ _ _ hcd := .failure hcd
  forget h := h

/-- A call in a context that has been in use ends as in one that has its text at hand, or it finds
that it is too late for a name. -/
theorem outcome_call_eq {script : Text} {limits : Limits} {c d : Context}
    (hc : c.Faithful script limits) (hd : d.Faithful script limits) (htext : d.script = some script)
    (f : Function) (args : List Value) (h : Heap) :
    ((f.call args).outcome ⟨h, c⟩ = (f.call args).outcome ⟨h, d⟩ ∧
      ((f.call args).finish ⟨h, c⟩).heap = ((f.call args).finish ⟨h, d⟩).heap) ∨
    ∃ halt, TooLate c halt ∧ (f.call args).outcome ⟨h, c⟩ = .error halt := by
  have hcall := Function.related_call (matching_unconditional script limits c) f args
  exact (hcall h c d ⟨hc, hd, htext, rfl, fun _ => rfl⟩).outcome_eq

end Run

end Scriptlet
