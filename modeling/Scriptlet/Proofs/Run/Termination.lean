import Scriptlet.Proofs.Run.Settled

/-!
Which calls come to an end. The budget bounds how deep indexes are nested in a statement, not how
deep calls are; only the call graph of the script does. Without a cycle in reach a call ends, for all
arguments and on any heap, and gives the same whatever depth of calls is allowed from the bound on.
With a cycle in reach it never has a value, at any depth: to succeed it would have to go around.
-/

namespace Scriptlet

namespace Run

variable {script : Text} {limits : Limits}

/-- Two runs that do the same in every context of a script and do not give up. -/
def ending (script : Text) (limits : Limits) : Congruence where
  Rel x y _ _ := ∀ s, s.context.Faithful script limits → x s = y s ∧
    x.outcome s ≠ .error .tooDeep ∧ (x.finish s).context.Faithful script limits
  plain := by
    intro α x hx s hs
    refine ⟨rfl, fun hdeep => Bool.noConfusion (hx.isOwn hdeep), ?_⟩
    rw [context_finish_plain hx s]
    exact hs
  fail := by
    intro α reason written _ s hs
    refine ⟨rfl, ?_, hs⟩
    rintro ⟨⟩
  limits s hs := ⟨rfl, by rintro ⟨⟩, hs⟩
  bind := by
    intro α β x y f g written more names next hx hf s hs
    obtain ⟨hsame, hends, hfaithful⟩ := hx s hs
    cases hrun : x s with
    | error halt t =>
      rw [outcome_of_error hrun] at hends
      rw [finish_of_error hrun] at hfaithful
      rw [outcome_bind_of_error hrun, finish_bind_of_error hrun, bind_of_error hrun,
        bind_of_error (hsame.symm.trans hrun)]
      exact ⟨rfl, fun heq => hends (by cases heq; rfl), hfaithful⟩
    | ok a t =>
      rw [finish_of_ok hrun] at hfaithful
      rw [outcome_bind_of_ok hrun, finish_bind_of_ok hrun, bind_of_ok hrun,
        bind_of_ok (hsame.symm.trans hrun)]
      exact hf a t hfaithful

end Run

namespace Function

open Run Relation

variable {script : Text} {limits : Limits} {f : Function}

/-- A function with bounded calls ends, and any depth from the bound on gives the same. The induction
is on the bound: what is called has a smaller one. -/
theorem ending_invoke {depth deeper : Nat} (hf : Bounded script depth f) (hle : depth ≤ deeper)
    (args : List Value) (s : State) (hs : s.context.Faithful script limits) :
    f.invoke depth args s = f.invoke deeper args s ∧
      (f.invoke depth args).outcome s ≠ .error .tooDeep ∧
      ((f.invoke depth args).finish s).context.Faithful script limits := by
  induction depth generalizing f deeper args s with
  | zero => exact hf.elim
  | succ depth ih =>
    obtain ⟨deeper, rfl⟩ := Nat.exists_eq_add_of_le' (Nat.zero_lt_of_lt hle)
    have hcalls : (ending script limits).Calls (invoke depth) (invoke deeper) (fun _ _ => .none)
        f.callees := by
      intro name hname args hargs s hs
      cases hresolve : (s.context.resolve name).1 with
      | error reason =>
        have hrun : ∀ bound, callNamed (invoke bound) name args s = _ := fun bound =>
          callNamed_of_error hresolve args
        rw [outcome_of_error (hrun depth), finish_of_error (hrun depth), hrun depth, hrun deeper]
        exact ⟨rfl, by rintro ⟨⟩, hs.resolve name⟩
      | ok g =>
        -- What is found in the context is declared in the text, so it is a call of the graph.
        have hg := hf g ⟨name, hname, hs.extract_of_resolve hresolve⟩
        have hcall : (ending script limits).Rel (Run.ofExcept args >>= fun vs => invoke depth g vs)
            (Run.ofExcept args >>= fun vs => invoke deeper g vs) [] (.after _ fun _ => .none) :=
          Congruence.before (.ofExcept hargs) fun vs => ih hg (Nat.le_of_succ_le_succ hle) vs
        unfold outcome finish
        rw [callNamed_of_ok hresolve, callNamed_of_ok hresolve]
        exact hcall _ (hs.resolve name)
    exact related_body f hcalls args s hs

/-- A call with a value has gone through everything that is called, so there was no cycle. -/
theorem not_reachesCycle_of_invoke {depth : Nat} {args : List Value} {s t : State} {v : Value}
    (hs : s.context.Faithful script limits) (hrun : f.invoke depth args s = .ok v t) :
    ¬ ReachesCycle script f := by
  have hcontext := related_invoke replay_unconditional depth f args s
  rw [finish_of_ok hrun] at hcontext
  have ht : t.context.Faithful script limits := hcontext ▸ hs.after _
  exact ((settled_of_invoke hrun).2.bounded ht).not_reachesCycle

/-- Whether a call ends is settled by the call graph of the script, in whatever state its context is
and whatever the heap and the arguments are. If no cycle can be reached, a call is not given up that
may nest one deeper than there are functions within reach, and a greater bound makes no difference to
what it does. If a cycle can be reached, no call has a value under any bound. -/
theorem ends_unless_cyclic (script : Text) (limits : Limits) (f : Function) (args : List Value)
    (h : Heap) (events : List Context.Event) :
    let s : State := ⟨h, (Context.ofScript script limits).after events⟩
    let bound := (reach script f).ncard + 1
    (¬ ReachesCycle script f →
      (f.invoke bound args).outcome s ≠ .error .tooDeep ∧
        ∀ depth, bound ≤ depth → f.invoke depth args s = f.invoke bound args s) ∧
    (ReachesCycle script f → ∀ depth v t, f.invoke depth args s ≠ .ok v t) := by
  intro s bound
  have hs : s.context.Faithful script limits :=
    (Context.Faithful.ofScript script limits).after events
  refine ⟨fun hacyclic => ?_, fun hcyclic depth v t hrun => ?_⟩
  · have hbounded := bounded_of_not_reachesCycle hacyclic
    refine ⟨(ending_invoke hbounded (Nat.le_refl bound) args s hs).2.1, fun depth hdepth => ?_⟩
    exact (ending_invoke hbounded hdepth args s hs).1.symm
  · exact not_reachesCycle_of_invoke hs hrun hcyclic

/-- Of these functions the first calls the second, and the third calls itself. -/
def chainAndLoop : Text :=
  "function f(a){return g(a)};function g(a){return a};function h(a){return h(a)}".toList

def chained : Function :=
  ⟨['f'], [['a']], ["return g(a)".toList]⟩

def looping : Function :=
  ⟨['h'], [['a']], ["return h(a)".toList]⟩

theorem not_reachesCycle_chained : ¬ ReachesCycle chainAndLoop chained := by
  have hbounded : Bounded chainAndLoop 2 chained := by
    rintro g ⟨name, hname, hg⟩
    have hcallees : chained.callees = [['g']] := by decide +kernel
    rw [hcallees, List.mem_singleton] at hname
    subst hname
    have hextract : extract chainAndLoop ['g'] = .ok ⟨['g'], [['a']], ["return a".toList]⟩ := by
      decide
    obtain rfl := Except.ok.inj (hextract.symm.trans hg)
    rintro g' ⟨name, hname, -⟩
    have hnone : callees ⟨['g'], [['a']], ["return a".toList]⟩ = [] := by decide +kernel
    rw [hnone] at hname
    cases hname
  exact hbounded.not_reachesCycle

theorem reachesCycle_looping : ReachesCycle chainAndLoop looping :=
  ⟨looping, .refl, .single ⟨['h'], by decide +kernel, by decide⟩⟩

/-- Calls of the first function end from some depth on, those of the third never have a value; in a
context that was released once it knew what the first one calls. -/
theorem ends_unless_cyclic_chain_and_loop :
    let s : State := ⟨{}, (Context.ofScript chainAndLoop {}).after [.lookup ['g'], .release]⟩
    (∃ bound, (chained.invoke bound [.integer 1]).outcome s ≠ .error .tooDeep ∧
      ∀ depth, bound ≤ depth →
        chained.invoke depth [.integer 1] s = chained.invoke bound [.integer 1] s) ∧
    ∀ depth v t, looping.invoke depth [.integer 1] s ≠ .ok v t := by
  intro s
  have hchained := (ends_unless_cyclic chainAndLoop {} chained [.integer 1] {}
    [.lookup ['g'], .release]).1 not_reachesCycle_chained
  have hlooping := (ends_unless_cyclic chainAndLoop {} looping [.integer 1] {}
    [.lookup ['g'], .release]).2 reachesCycle_looping
  exact ⟨⟨_, hchained⟩, hlooping⟩

end Function

end Scriptlet
