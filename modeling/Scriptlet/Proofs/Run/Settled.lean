import Mathlib.Data.Set.Card
import Mathlib.Logic.Relation
import Scriptlet.Proofs.Function.Extraction
import Scriptlet.Proofs.Run.Lookups
import Scriptlet.Proofs.Run.Replay

/-!
What a successful run says about later ones. Statements have no branches: a run that has a value has
made every call that is written, and every call inside those. So after it everything that the
function can ever ask for is compiled, whatever the arguments; the function is settled. A settled
function leaves the context as it is, fails for reasons of its own only, and never nests deeper than
it did.

Which functions can be reached is read off the texts of a script alone. There are finitely many of
them, so calls are nested to a bounded depth exactly when no cycle is within reach; the number of
functions that are gives the bound.
-/

namespace Scriptlet

namespace Function

/-! ### The call graph of a script -/

open Relation

variable {script : Text} {f g : Function} {depth : Nat}

def Calls (script : Text) (f g : Function) : Prop :=
  ∃ name ∈ f.callees, extract script name = .ok g

def reach (script : Text) (f : Function) : Set Function :=
  {g | TransGen (Calls script) f g}

/-- A function from which a cycle of calls can be reached. -/
def ReachesCycle (script : Text) (f : Function) : Prop :=
  ∃ g, ReflTransGen (Calls script) f g ∧ TransGen (Calls script) g g

/-- Calls nest less than so deep, the call of the function itself included. -/
def Bounded (script : Text) : (depth : Nat) → Function → Prop
  | 0, _ => False
  | depth + 1, f => ∀ g, Calls script f g → Bounded script depth g

theorem Bounded.mono {deeper : Nat} (h : Bounded script depth f) (hle : depth ≤ deeper) :
    Bounded script deeper f := by
  induction depth generalizing f deeper with
  | zero => exact h.elim
  | succ depth ih =>
    obtain ⟨deeper, rfl⟩ := Nat.exists_eq_add_of_le' (Nat.zero_lt_of_lt hle)
    intro g hg
    exact ih (h g hg) (Nat.le_of_succ_le_succ hle)

/-! ### Without a cycle there is a bound -/

theorem finite_reach (script : Text) (f : Function) : (reach script f).Finite := by
  refine (finite_extracted script).subset fun g hg => ?_
  obtain ⟨_, _, hlast⟩ := TransGen.tail'_iff.mp hg
  obtain ⟨name, -, hname⟩ := hlast
  exact ⟨name, hname⟩

/-- Along a call that is on no cycle fewer functions are within reach. -/
theorem ncard_reach_lt (hcall : Calls script f g) (hg : ¬ TransGen (Calls script) g g) :
    (reach script g).ncard < (reach script f).ncard := by
  refine Set.ncard_lt_ncard (Set.ssubset_iff_exists.mpr ⟨?_, g, ?_, hg⟩) (finite_reach script f)
  · intro h hh
    exact TransGen.head hcall hh
  · exact TransGen.single hcall

/-- One more than the functions that can be reached is deep enough. -/
theorem bounded_of_not_reachesCycle (h : ¬ ReachesCycle script f) :
    Bounded script ((reach script f).ncard + 1) f := by
  induction hn : (reach script f).ncard using Nat.strong_induction_on generalizing f with
  | _ n ih =>
    subst hn
    intro g hcall
    have hg : ¬ ReachesCycle script g := by
      rintro ⟨k, hreach, hcycle⟩
      exact h ⟨k, ReflTransGen.head hcall hreach, hcycle⟩
    have hlt := ncard_reach_lt hcall fun hcycle => hg ⟨g, .refl, hcycle⟩
    exact (ih _ hlt hg rfl).mono hlt

/-! ### On a cycle there is none -/

/-- The induction is on the bound: a cycle through a function goes through one that it calls. -/
theorem Bounded.not_cycle (h : Bounded script depth f) : ¬ TransGen (Calls script) f f := by
  induction depth generalizing f with
  | zero => exact h.elim
  | succ depth ih =>
    intro hcycle
    obtain ⟨g, hcall, hback⟩ := TransGen.head'_iff.mp hcycle
    exact ih (h g hcall) (TransGen.tail' hback hcall)

theorem Bounded.not_reachesCycle (h : Bounded script depth f) : ¬ ReachesCycle script f := by
  rintro ⟨g, hreach, hcycle⟩
  induction hreach using ReflTransGen.head_induction_on generalizing depth with
  | refl => exact h.not_cycle hcycle
  | head hcall _ ih =>
    obtain _ | depth := depth
    · exact h.elim
    · exact ih (h _ hcall)

end Function

/-! ### Settled functions -/

open Run

namespace Function

variable {c d : Context} {script : Text} {limits : Limits} {f : Function} {depth : Nat}

/-- Every function that calls can lead to is compiled, and they nest less than so deep. -/
def Settled (c : Context) : (depth : Nat) → Function → Prop
  | 0, _ => False
  | depth + 1, f => ∀ name ∈ f.callees, ∃ g, c.compiled? name = some g ∧ Settled c depth g

theorem Settled.grows (h : Settled c depth f) (hgrows : c.Grows d) : Settled d depth f := by
  induction depth generalizing f with
  | zero => exact h.elim
  | succ depth ih =>
    intro name hname
    obtain ⟨g, hknown, hg⟩ := h name hname
    exact ⟨g, hgrows name g hknown, ih hg⟩

/-- What is compiled is what the script declares, so the bound is one of the call graph. -/
theorem Settled.bounded (h : Settled c depth f) (hc : c.Faithful script limits) :
    Bounded script depth f := by
  induction depth generalizing f with
  | zero => exact h.elim
  | succ depth ih =>
    rintro g ⟨name, hname, hextract⟩
    obtain ⟨g', hknown, hg⟩ := h name hname
    obtain rfl := Except.ok.inj (hextract.symm.trans (hc.extract_eq hknown))
    exact ih hg

end Function

namespace Run

variable {α β : Type} {depth : Nat}

/-! ### Success settles -/

/-- A run with a value leaves every name that is written compiled, and its function settled. -/
def settling (depth : Nat) : Congruence where
  Rel x _ written _ := ∀ s a t, x s = .ok a t → s.context.Grows t.context ∧
    ∀ name ∈ written, ∃ g, t.context.compiled? name = some g ∧ g.Settled t.context depth
  plain := by
    intro α x hx s a t hrun
    have hcontext := context_finish_plain hx s
    rw [finish_of_ok hrun] at hcontext
    rw [hcontext]
    exact ⟨.refl _, by simp⟩
  fail _ _ _ _ _ hrun := (fail_ne_ok hrun).elim
  limits := by
    rintro s a t ⟨⟩
    exact ⟨.refl _, by simp⟩
  bind := by
    intro α β x y f g written more names next hx hf s b t hrun
    obtain ⟨a, u, hfirst, hnext⟩ := bind_eq_ok.mp hrun
    obtain ⟨hgrows, hwritten⟩ := hx s a u hfirst
    obtain ⟨hlater, hmore⟩ := hf a u b t hnext
    refine ⟨hgrows.trans hlater, fun name hname => ?_⟩
    rcases List.mem_append.mp hname with hname | hname
    · obtain ⟨callee, hknown, hsettled⟩ := hwritten name hname
      exact ⟨callee, hlater name callee hknown, hsettled.grows hlater⟩
    · exact hmore name hname

end Run

/-- A call that has a value settles the function. The induction is on the depth of calls. -/
theorem Function.settled_of_invoke {depth : Nat} {f : Function} {args : List Value} {s t : State}
    {v : Value} (hrun : f.invoke depth args s = .ok v t) :
    s.context.Grows t.context ∧ f.Settled t.context depth := by
  induction depth generalizing f args s t v with
  | zero => cases hrun
  | succ depth ih =>
    have hcalls : (settling depth).Calls (invoke depth) (invoke depth) (fun _ _ => .none)
        f.callees := by
      intro name _ args _ s v t hrun
      cases hresolve : (s.context.resolve name).1 with
      | error reason =>
        rw [callNamed_of_error hresolve] at hrun
        cases hrun
      | ok g =>
        rw [callNamed_of_ok hresolve] at hrun
        obtain ⟨vs, u, hargs, hrun⟩ := bind_eq_ok.mp hrun
        obtain ⟨-, rfl⟩ := ofExcept_eq_ok.mp hargs
        -- The callee was compiled before its own calls began, and they have removed nothing.
        obtain ⟨hgrows, hsettled⟩ := ih hrun
        have hknown := hgrows name g (Context.compiled?_of_resolve hresolve)
        refine ⟨(s.context.grows_resolve name).trans hgrows, fun other hother => ?_⟩
        obtain rfl := List.mem_singleton.mp hother
        exact ⟨g, hknown, hsettled⟩
    exact related_body f hcalls args s v t hrun

/-! ### A settled function asks for nothing new -/

/-- Whether a run stopped for a reason that lies in the script: neither was the script text gone nor
were calls nested too deep. -/
def Halt.isOwn : Halt → Bool
  | .error reason => !reason.isRelease
  | .tooDeep => false

namespace Run

theorem Plain.isOwn {x : Run α} (hx : x.Plain) {s : State} {halt : Halt}
    (hhalt : x.outcome s = .error halt) : halt.isOwn = true := by
  obtain ⟨h, c⟩ := s
  obtain ⟨r, h', hown, hrun⟩ := hx h
  cases r with
  | ok a =>
    rw [outcome_of_ok (hrun c)] at hhalt
    cases hhalt
  | error reason =>
    rw [outcome_of_error (hrun c)] at hhalt
    cases hhalt
    simp [Halt.isOwn, hown reason rfl]

/-- A run in a context that leaves it as it is and can only fail for a reason of its own. -/
def contained (c : Context) : Congruence where
  Rel x _ _ _ := ∀ h, (x.finish ⟨h, c⟩).context = c ∧
    ∀ halt, x.outcome ⟨h, c⟩ = .error halt → halt.isOwn = true
  plain hx h := ⟨context_finish_plain hx ⟨h, c⟩, fun _ => hx.isOwn⟩
  fail := by
    intro α reason written hreason h
    refine ⟨rfl, ?_⟩
    rintro _ ⟨⟩
    simp [Halt.isOwn, hreason]
  limits h := ⟨rfl, fun _ hhalt => by cases hhalt⟩
  bind := by
    intro α β x y f g written more names next hx hf h
    obtain ⟨hcontext, hown⟩ := hx h
    cases hrun : x ⟨h, c⟩ with
    | error halt t =>
      rw [finish_of_error hrun] at hcontext
      rw [outcome_of_error hrun] at hown
      rw [finish_bind_of_error hrun, outcome_bind_of_error hrun]
      refine ⟨hcontext, ?_⟩
      rintro _ ⟨⟩
      exact hown halt rfl
    | ok a t =>
      obtain ⟨h', d⟩ := t
      rw [finish_of_ok hrun] at hcontext
      obtain rfl : d = c := hcontext
      rw [finish_bind_of_ok hrun, outcome_bind_of_ok hrun]
      exact hf a h'

end Run

/-- The induction is on the depth of calls: what a settled function calls is settled, less deep. -/
theorem Function.contained_invoke {c : Context} {depth : Nat} {f : Function}
    (hf : f.Settled c depth) (args : List Value) (h : Heap) :
    ((f.invoke depth args).finish ⟨h, c⟩).context = c ∧
      ∀ halt, (f.invoke depth args).outcome ⟨h, c⟩ = .error halt → halt.isOwn = true := by
  induction depth generalizing f args h with
  | zero => exact hf.elim
  | succ depth ih =>
    have hcalls : (contained c).Calls (invoke depth) (invoke depth) (fun _ _ => .none)
        f.callees := by
      intro name hname args hargs h
      obtain ⟨g, hknown, hg⟩ := hf name hname
      have hcall : (contained c).Rel (Run.ofExcept args >>= fun vs => invoke depth g vs)
          (Run.ofExcept args >>= fun vs => invoke depth g vs) [] (.after _ fun _ => .none) :=
        Congruence.before (.ofExcept hargs) fun vs => ih hg vs
      have hresolve : c.resolve name = (.ok g, c) := Context.resolve_of_compiled? hknown
      unfold finish outcome
      rw [callNamed_of_ok (s := ⟨h, c⟩) (g := g) (by rw [hresolve])]
      simp only [hresolve]
      exact hcall h
    exact related_body f hcalls args h

/-- A call of a function that was settled, within the limits of the context. -/
theorem Function.contained_call {c : Context} {f : Function} (hf : f.Settled c c.limits.callDepth)
    (args : List Value) (h : Heap) :
    ∀ halt, (f.call args).outcome ⟨h, c⟩ = .error halt → halt.isOwn = true :=
  (contained_invoke hf args h).2

end Scriptlet
