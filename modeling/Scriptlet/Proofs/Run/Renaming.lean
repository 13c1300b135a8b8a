import Scriptlet.Proofs.Heap.Renaming
import Scriptlet.Proofs.Run.Outcome

/-!
Two runs of one script on heaps that are the same up to the identity of their arrays. They go in
step: what one looks up, makes, writes or refuses, so does the other with the partners, in contexts
that stay equal. Each step may add pairs to the renaming and never breaks one.
-/

namespace Scriptlet

def Frame.Same (ρ : Renaming) (frame frame' : Frame) : Prop :=
  ∀ x, Alike ρ.Same (frame.fetch x) (frame'.fetch x)

namespace Run

open Renaming

/-- Results of two runs that are alike: both values, related under a renaming that goes on from the
given one, or both failed for the same reason. The heaps agree in either case. -/
inductive EndsAlike {α β : Type} (ρ : Renaming) (R : Renaming → α → β → Prop) :
    EStateM.Result Halt State α → EStateM.Result Halt State β → Prop where
  | value {σ : Renaming} {a : α} {b : β} {h g : Heap} {c : Context} : ρ.Extends σ →
    σ.Relates h g → R σ a b → EndsAlike ρ R (.ok a ⟨h, c⟩) (.ok b ⟨g, c⟩)
  | failure {σ : Renaming} {halt : Halt} {h g : Heap} {c : Context} : ρ.Extends σ →
    σ.Relates h g → EndsAlike ρ R (.error halt ⟨h, c⟩) (.error halt ⟨g, c⟩)

/-- Two runs that end alike from all heaps that agree. -/
structure InStep {α β : Type} (ρ : Renaming) (x : Run α) (y : Run β)
    (R : Renaming → α → β → Prop) : Prop where
  ends : ∀ {h g : Heap} {c : Context}, ρ.Relates h g → EndsAlike ρ R (x ⟨h, c⟩) (y ⟨g, c⟩)

abbrev Equal {α : Type} (_ : Renaming) (a b : α) : Prop :=
  a = b

variable {α β γ δ : Type} {ρ σ : Renaming} {R : Renaming → α → β → Prop}
variable {S : Renaming → γ → δ → Prop}

theorem EndsAlike.after {r : EStateM.Result Halt State α} {r' : EStateM.Result Halt State β}
    (hσ : ρ.Extends σ) (h : EndsAlike σ R r r') : EndsAlike ρ R r r' := by
  cases h with
  | value hextends hrelates hab => exact .value (hσ.trans hextends) hrelates hab
  | failure hextends hrelates => exact .failure (hσ.trans hextends) hrelates

namespace InStep

/-- Step by step: the second steps start from whatever renaming the first ones lead to. -/
theorem bind {x : Run α} {y : Run β} {f : α → Run γ} {f' : β → Run δ} (hx : InStep ρ x y R)
    (hf : ∀ {σ a b}, ρ.Extends σ → R σ a b → InStep σ (f a) (f' b) S) :
    InStep ρ (x >>= f) (y >>= f') S := by
  constructor
  intro h g c hρ
  have hfirst : EndsAlike ρ R (x ⟨h, c⟩) (y ⟨g, c⟩) := hx.ends hρ
  generalize hxs : x ⟨h, c⟩ = r, hys : y ⟨g, c⟩ = r' at hfirst
  cases hfirst with
  | value hextends hrelates hab =>
    rw [bind_of_ok hxs, bind_of_ok hys]
    exact ((hf hextends hab).ends hrelates).after hextends
  | failure hextends hrelates =>
    rw [bind_of_error hxs, bind_of_error hys]
    exact .failure hextends hrelates

theorem pure {a : α} {b : β} (hab : R ρ a b) : InStep ρ (pure a) (pure b) R :=
  ⟨fun hρ => .value ρ.extends_refl hρ hab⟩

theorem throw {halt : Halt} : InStep ρ (throw halt) (throw halt) R :=
  ⟨fun hρ => .failure ρ.extends_refl hρ⟩

theorem fail {reason : Error} : InStep ρ (fail reason) (fail reason) R :=
  throw

theorem ofExcept {r : Except Error α} {r' : Except Error β} (h : Alike (R ρ) r r') :
    InStep ρ (ofExcept r) (ofExcept r') R := by
  cases h with
  | ok hab => exact pure hab
  | error reason => exact fail

theorem ofValue {r : Except ValueError α} {r' : Except ValueError β} (h : Alike (R ρ) r r') :
    InStep ρ (ofValue r) (ofValue r') R := by
  cases h with
  | ok hab => exact pure hab
  | error reason => exact fail

theorem ofValue_eq {r r' : Except ValueError α} (h : r = r') :
    InStep ρ (Run.ofValue r) (Run.ofValue r') Equal :=
  ofValue (.of_eq h)

theorem reading {f : Heap → Except ValueError α} {f' : Heap → Except ValueError β}
    (hf : ∀ {h g}, ρ.Relates h g → Alike (R ρ) (f h) (f' g)) :
    InStep ρ (reading f) (reading f') R :=
  ⟨fun hρ => (ofValue (hf hρ)).ends hρ⟩

theorem reading_eq {f f' : Heap → Except ValueError α} (hf : ∀ {h g}, ρ.Relates h g → f h = f' g) :
    InStep ρ (Run.reading f) (Run.reading f') Equal :=
  reading fun hρ => .of_eq (hf hρ)

theorem changing {f : Heap → α × Heap} {f' : Heap → β × Heap}
    (hf : ∀ {h g}, ρ.Relates h g →
      ∃ σ, ρ.Extends σ ∧ σ.Relates (f h).2 (f' g).2 ∧ R σ (f h).1 (f' g).1) :
    InStep ρ (changing f) (changing f') R := by
  constructor
  intro h g c hρ
  obtain ⟨σ, hextends, hrelates, hab⟩ := hf hρ
  exact .value hextends hrelates hab

theorem guarded {p : Prop} [Decidable p] {reason : Error} {x : Run α} {y : Run β}
    (h : InStep ρ x y R) :
    InStep ρ (if p then Run.fail reason else x) (if p then Run.fail reason else y) R := by
  split
  · exact fail
  · exact h

theorem resolve (name : Text) : InStep ρ (resolve name) (resolve name) Equal := by
  constructor
  intro h g c hρ
  rw [resolve_eq, resolve_eq]
  dsimp only
  cases (c.resolve name).1 with
  | ok f => exact .value ρ.extends_refl hρ rfl
  | error reason => exact .failure ρ.extends_refl hρ

theorem limits : InStep ρ limits limits Equal :=
  ⟨fun hρ => .value ρ.extends_refl hρ rfl⟩

end InStep

end Run

namespace Frame

variable {ρ σ : Renaming} {frame frame' : Frame} {v w : Value}

theorem Same.extend (h : Same ρ frame frame') (hσ : ρ.Extends σ) : Same σ frame frame' :=
  fun x => (h x).imp fun hvw => hvw.extend hσ

theorem Same.set (h : Same ρ frame frame') (x : Text) (hvw : ρ.Same v w) :
    Same ρ (frame.set x v) (frame'.set x w) := by
  intro y
  by_cases hy : y = x
  · simpa [fetch, get?_set, hy] using Alike.ok hvw
  · simpa [fetch, get?_set, hy] using h y

theorem alike_bindParams {function : Text} {params : List Text} {args args' : List Value}
    (h : Same ρ frame frame') (hargs : ρ.SameEach args args') :
    Alike (Same ρ) (bindParams function frame params args)
      (bindParams function frame' params args') := by
  induction params generalizing frame frame' args args' with
  | nil => exact .ok h
  | cons param params ih =>
    cases hargs with
    | nil => exact .error _
    | cons hfirst hrest => exact ih (h.set param hfirst) hrest

theorem alike_ofCall {args args' : List Value} (f : Function) (hargs : ρ.SameEach args args') :
    Alike (Same ρ) (ofCall f args) (ofCall f args') :=
  alike_bindParams (fun _ => .error _) hargs

end Frame

open Run

variable {ρ : Renaming} {frame frame' : Frame}

theorem Argument.alike_mapM (hframe : Frame.Same ρ frame frame') (arguments : List Argument) :
    Alike ρ.SameEach (arguments.mapM (Argument.eval frame))
      (arguments.mapM (Argument.eval frame')) := by
  induction arguments with
  | nil => exact .ok .nil
  | cons argument rest ih =>
    have hfirst : Alike ρ.Same (argument.eval frame) (argument.eval frame') := by
      cases argument with
      | integer n => exact .ok (.scalar rfl)
      | name x => exact hframe x
    rw [List.mapM_cons, List.mapM_cons]
    exact hfirst.bind fun hvw => ih.bind fun hvs => .ok (.cons hvw hvs)

/-! ### What the parts of a run have in common -/

namespace Expr

theorem inStep_fetch (hframe : Frame.Same ρ frame frame') (x : Text) :
    InStep ρ (Run.ofExcept (frame.fetch x)) (Run.ofExcept (frame'.fetch x)) Renaming.Same :=
  .ofExcept (hframe x)

theorem inStep_asText {v w : Value} (hvw : ρ.Same v w) :
    InStep ρ (Run.ofValue v.asText) (Run.ofValue w.asText) Run.Equal :=
  .ofValue_eq (Renaming.asText_eq hvw)

theorem inStep_asInteger {v w : Value} (hvw : ρ.Same v w) :
    InStep ρ (Run.ofValue v.asInteger) (Run.ofValue w.asInteger) Run.Equal :=
  .ofValue_eq (Renaming.asInteger_eq hvw)

theorem inStep_asArray {v w : Value} (hvw : ρ.Same v w) :
    InStep ρ (Run.ofValue v.asArray) (Run.ofValue w.asArray) Renaming.Pairs :=
  .ofValue (Renaming.alike_asArray hvw)

/-- A sequence that was taken out of both heaps is held in both. -/
theorem inStep_hold {p q : Sequence} (hpq : ρ.SameSequence p q) :
    InStep ρ (Run.changing fun h => h.hold p) (Run.changing fun h => h.hold q) Renaming.Same :=
  .changing fun hρ => hρ.hold hpq

end Expr

abbrev Statement.SameAfter (ρ : Renaming) (after after' : Value × Frame) : Prop :=
  ρ.Same after.1 after'.1 ∧ Frame.Same ρ after.2 after'.2

namespace Statement

theorem inStep_put {a b : ArrayId} {v w : Value} (hab : ρ.Pairs a b) (hvw : ρ.Same v w) (i : Nat) :
    InStep ρ (Run.changing fun h => ((), h.put a i v)) (Run.changing fun h => ((), h.put b i w))
      Run.Equal :=
  .changing fun hρ => ⟨ρ, ρ.extends_refl, hρ.put hab hvw i, rfl⟩

/-- A write is refused in both heaps or done in both. -/
theorem inStep_write {a b : ArrayId} {v w : Value} {index : Int}
    (hframe : Frame.Same ρ frame frame') (hab : ρ.Pairs a b) (hvw : ρ.Same v w) :
    InStep ρ
      (do
        Run.reading fun h => h.checkWrite a index v
        Run.changing fun h => ((), h.put a index.toNat v)
        return (v, frame))
      (do
        Run.reading fun h => h.checkWrite b index w
        Run.changing fun h => ((), h.put b index.toNat w)
        return (w, frame'))
      SameAfter := by
  refine InStep.bind (.reading_eq fun hρ => hρ.checkWrite_eq hab hvw index) fun hσ _ => ?_
  refine InStep.bind (inStep_put (hσ _ _ hab) (hvw.extend hσ) index.toNat) fun hτ _ => ?_
  exact .pure ⟨hvw.extend (hσ.trans hτ), hframe.extend (hσ.trans hτ)⟩

end Statement

/-! ### Whole runs -/

def Invocation.InStep (invoke : Invocation) : Prop :=
  ∀ {ρ : Renaming} (f : Function) {args args' : List Value}, ρ.SameEach args args' →
    Run.InStep ρ (invoke f args) (invoke f args') Renaming.Same

section Calls

variable {invoke : Invocation} (hcalls : invoke.InStep)
include hcalls

namespace Expr

/-- An expression goes in step with itself in frames that are the same. -/
theorem inStep_eval (hframe : Frame.Same ρ frame frame') (e : Expr) (budget : Int) :
    InStep ρ (e.eval invoke frame budget) (e.eval invoke frame' budget) Renaming.Same := by
  induction e generalizing ρ frame frame' budget with
  | integer n =>
    rw [eval, eval]
    exact .guarded (.pure (.scalar rfl))
  | name x =>
    rw [eval, eval]
    exact .guarded (inStep_fetch hframe x)
  | split r =>
    rw [eval, eval]
    refine .guarded ((inStep_fetch hframe r).bind fun _ hv => ?_)
    refine (inStep_asText hv).bind fun {_ t _} _ ht => ?_
    subst ht
    exact inStep_hold (Renaming.sameSequence_singles t)
  | join r =>
    rw [eval, eval]
    refine .guarded ((inStep_fetch hframe r).bind fun _ hv => ?_)
    refine (inStep_asArray hv).bind fun _ hab => ?_
    refine InStep.bind (.reading_eq fun hρ => hρ.join_eq hab) fun _ ht => .pure ?_
    subst ht
    exact .scalar rfl
  | length r =>
    rw [eval, eval]
    refine .guarded ((inStep_fetch hframe r).bind fun _ hv => ?_)
    refine InStep.bind (.reading_eq fun hρ => hρ.length_eq hv) fun _ hn => .pure ?_
    subst hn
    exact .scalar rfl
  | reverse r =>
    rw [eval, eval]
    refine .guarded ((inStep_fetch hframe r).bind fun _ hv => ?_)
    refine InStep.bind (.reading fun hρ => hρ.alike_sequence hv) fun _ hpq => ?_
    exact inStep_hold hpq.reverse
  | slice r start ih =>
    rw [eval, eval]
    refine .guarded ((inStep_fetch hframe r).bind fun hσ hv => ?_)
    refine (ih (hframe.extend hσ) (budget - 1)).bind fun hτ hn => ?_
    refine (inStep_asInteger hn).bind fun {_ n _} hυ hn => ?_
    subst hn
    have hv := hv.extend (hτ.trans hυ)
    refine InStep.bind (.reading fun hρ => hρ.alike_suffix hv n) fun _ hpq => ?_
    exact inStep_hold hpq
  | index r position ih =>
    rw [eval, eval]
    refine .guarded ((inStep_fetch hframe r).bind fun hσ hv => ?_)
    refine (inStep_asArray hv).bind fun hτ hab => ?_
    refine (ih (hframe.extend (hσ.trans hτ)) (budget - 1)).bind fun hυ hn => ?_
    refine (inStep_asInteger hn).bind fun {_ n _} hφ hn => ?_
    subst hn
    exact .reading fun hρ => hρ.alike_readAt ((hυ.trans hφ) _ _ hab) n
  | remainder left right ihl ihr =>
    rw [eval, eval]
    refine .guarded ((ihl hframe budget).bind fun hσ hm => ?_)
    refine (inStep_asInteger hm).bind fun {_ m _} hτ hm => ?_
    subst hm
    refine (ihr (hframe.extend (hσ.trans hτ)) budget).bind fun _ hn => ?_
    refine (inStep_asInteger hn).bind fun {_ n _} _ hn => ?_
    subst hn
    refine (InStep.ofValue_eq rfl).bind fun _ hr => .pure ?_
    subst hr
    exact .scalar rfl
  | call f arguments =>
    rw [eval, eval]
    refine .guarded ((InStep.resolve f).bind fun {_ callee _} hσ hf => ?_)
    subst hf
    refine (InStep.ofExcept (Argument.alike_mapM (hframe.extend hσ) arguments)).bind fun _ hargs => ?_
    exact hcalls callee hargs
  | malformed reason =>
    rw [eval, eval]
    exact .guarded .fail

end Expr

namespace Statement

theorem inStep_exec (hframe : Frame.Same ρ frame frame') (budget : Int) (statement : Statement) :
    InStep ρ (statement.exec invoke frame budget) (statement.exec invoke frame' budget)
      SameAfter := by
  cases statement with
  | assign target value =>
    rw [exec, exec]
    refine (Expr.inStep_eval hcalls hframe _ budget).bind fun hσ hvw => ?_
    exact .pure ⟨hvw, (hframe.extend hσ).set target hvw⟩
  | assignIndex target index value =>
    rw [exec, exec]
    refine (Expr.inStep_eval hcalls hframe _ budget).bind fun hσ hn => ?_
    refine (Expr.inStep_asInteger hn).bind fun {_ n _} hτ hn => ?_
    subst hn
    have hframe := hframe.extend (hσ.trans hτ)
    refine (Expr.inStep_eval hcalls hframe _ budget).bind fun hσ hvw => ?_
    have hframe := hframe.extend hσ
    refine (Expr.inStep_fetch hframe target).bind fun hτ ha => ?_
    refine (Expr.inStep_asArray ha).bind fun hυ hab => ?_
    exact inStep_write (hframe.extend (hτ.trans hυ)) hab (hvw.extend (hτ.trans hυ))
  | result value =>
    rw [exec, exec]
    refine (Expr.inStep_eval hcalls hframe _ budget).bind fun hσ hvw => ?_
    exact .pure ⟨hvw, hframe.extend hσ⟩

theorem inStep_execText (hframe : Frame.Same ρ frame frame') (budget : Int) (t : Text) :
    InStep ρ (execText invoke frame budget t) (execText invoke frame' budget t) SameAfter := by
  unfold execText
  cases ofText t with
  | ok statement => exact inStep_exec hcalls hframe budget statement
  | error reason => exact .fail

end Statement

/-- The value of the last statement, if there was one, is the same. -/
theorem Function.inStep_runStatements (hframe : Frame.Same ρ frame frame') (budget : Int)
    {last last' : Option Value} (hlast : Option.Rel ρ.Same last last') (statements : List Text) :
    InStep ρ (runStatements invoke budget frame last statements)
      (runStatements invoke budget frame' last' statements)
      (fun σ v w => Option.Rel σ.Same v w) := by
  induction statements generalizing ρ frame frame' last last' with
  | nil => exact .pure hlast
  | cons t rest ih =>
    refine (Statement.inStep_execText hcalls hframe budget t).bind fun _ hafter => ?_
    exact ih hafter.2 (.some hafter.1)

end Calls

namespace Function

/-- Calls nested in a call are calls to a smaller depth: the induction is on it. -/
theorem inStep_invoke (depth : Nat) : Invocation.InStep (invoke depth) := by
  induction depth with
  | zero =>
    intro ρ f args args' _
    exact .throw
  | succ depth ih =>
    intro ρ f args args' hargs
    rw [invoke, invoke]
    refine (InStep.ofExcept (Frame.alike_ofCall f hargs)).bind fun hσ hframe => ?_
    refine InStep.limits.bind fun hτ hlimits => ?_
    subst hlimits
    refine (inStep_runStatements ih (hframe.extend hτ) _ .none f.statements).bind fun _ hlast => ?_
    cases hlast with
    | some hvw => exact .pure hvw
    | none => exact .fail

/-- A call goes in step with a call of the same function whose arguments are the same. -/
theorem inStep_call : Invocation.InStep call := by
  intro ρ f args args' hargs
  refine InStep.limits.bind fun hσ hlimits => ?_
  subst hlimits
  exact inStep_invoke _ f (hargs.imp fun _ _ hvw => hvw.extend hσ)

end Function

end Scriptlet
