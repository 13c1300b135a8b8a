import Scriptlet.Proofs.Context.History
import Scriptlet.Proofs.Expr.ReadBack
import Scriptlet.Proofs.Function.Extraction
import Scriptlet.Proofs.Run.Budget
import Scriptlet.Proofs.Run.Obedience

/-!
Compiled functions are well formed, and what follows for their calls. The parameters are in lowercase
letters, and so is every target of an assignment; hence no other names are ever bound, and a name with
an uppercase letter or a digit, which expressions and arguments of calls may have, is never found. Each
function has a statement, so that a body without any is only complained about when a name is compiled.
-/

namespace Scriptlet

namespace Function

variable {script name : Text} {f : Function}

/-- What is true of every function that is compiled from a script. -/
structure WellFormed (f : Function) : Prop where
  statements_ne_nil : f.statements ≠ []
  statements : ∀ t ∈ f.statements, t ≠ [] ∧ ';' ∉ t ∧ '}' ∉ t
  params : ∀ x ∈ f.params, Text.isAll Char.isLower x = true

theorem isAll_isLower_of_mem_params {parameters x : Text} {params : List Text}
    (hall : Text.isAll Declaration.isParameterChar parameters = true)
    (hcut : Text.CutInto ',' parameters params) (hx : x ∈ params) (hne : x ≠ []) :
    Text.isAll Char.isLower x = true := by
  refine Text.isAll_iff.mpr ⟨hne, fun c hc => ?_⟩
  have hmem : c ∈ parameters := hcut.joined ▸ Text.mem_intercalate_of_mem hx hc
  have hparameter := (Text.isAll_iff.mp hall).2 c hmem
  have hcomma : c ≠ ',' := by
    rintro rfl
    exact hcut.free x hx hc
  simpa [Declaration.isParameterChar, hcomma] using hparameter

theorem wellFormed_of_extract (h : extract script name = .ok f) : f.WellFormed := by
  have hfinds := finds_extract script name
  rw [h] at hfinds
  cases hfinds with
  | @found place parameters body params pieces hfirst hparams hpieces hsome =>
    obtain ⟨piece, hpiece, hne⟩ := hsome
    refine ⟨?_, fun t ht => ?_, fun x hx => ?_⟩
    · exact List.ne_nil_of_mem (List.mem_filter.mpr ⟨hpiece, by simpa using hne⟩)
    · obtain ⟨hmem, hne⟩ := List.mem_filter.mp ht
      refine ⟨by simpa using hne, hpieces.free t hmem, fun hbrace => ?_⟩
      apply hfirst.begins.brace_not_mem
      exact hpieces.joined ▸ Text.mem_intercalate_of_mem hmem hbrace
    · obtain ⟨hmem, hne⟩ := List.mem_filter.mp hx
      exact isAll_isLower_of_mem_params hfirst.begins.parameters hparams hmem (by simpa using hne)

/-- A complaint about a body without statements is about the name that was to be compiled. -/
theorem eq_of_extract_eq_emptyBody {other : Text}
    (h : extract script name = .error (.emptyBody other)) : other = name := by
  have hfinds := finds_extract script name
  rw [h] at hfinds
  cases hfinds with
  | emptyBody => rfl

end Function

/-! ### Names that are never bound -/

def Text.HasUpperOrDigit (x : Text) : Prop :=
  ∃ c ∈ x, c.isUpper = true ∨ c.isDigit = true

theorem Text.not_isAll_isLower {x : Text} (h : x.HasUpperOrDigit) :
    isAll Char.isLower x = false := by
  obtain ⟨c, hc, hclass⟩ := h
  have hlower : c.isLower = false := by
    delta Char.isUpper Char.isDigit at hclass
    delta Char.isLower
    grind
  rw [Bool.eq_false_iff]
  exact fun hall => not_mem_of_isAll hall hlower hc

def Expr.variables : Expr → List Text
  | .name x => [x]
  | .split r | .join r | .length r | .reverse r => [r]
  | .slice r start => r :: start.variables
  | .index r position => r :: position.variables
  | .remainder left right => left.variables ++ right.variables
  | .call _ arguments => arguments.filterMap fun
    | .name x => some x
    | .integer _ => none
  | .integer _ | .malformed _ => []

section Bound

open Run

variable {invoke : Invocation} {frame : Frame} {budget : Int} {s t : State} {v : Value} {x : Text}

theorem Argument.fetch_of_mapM {arguments : List Argument} {args : List Value}
    (h : arguments.mapM (Argument.eval frame) = .ok args) (hx : .name x ∈ arguments) :
    ∃ w, frame.fetch x = .ok w := by
  obtain ⟨w, -, hw⟩ := (mem_of_mapM_eq_ok h).1 (.name x) hx
  exact ⟨w, hw⟩

/-- An expression only has a value if all its variables are bound; none is looked at in vain and passed
over. The induction is on the tree. -/
theorem Expr.fetch_of_eval_eq_ok {e : Expr} (h : e.eval invoke frame budget s = .ok v t)
    (hx : x ∈ e.variables) : ∃ w, frame.fetch x = .ok w := by
  induction e generalizing budget s t v with
  | integer n => cases hx
  | malformed reason => cases hx
  | name y =>
    obtain rfl := List.mem_singleton.mp hx
    have hbudget := budget_of_eval_eq_ok h
    rw [eval, if_neg hbudget] at h
    exact ⟨v, (ofExcept_eq_ok.mp h).1⟩
  | split r | join r | length r | reverse r =>
    obtain rfl := List.mem_singleton.mp hx
    have hbudget := budget_of_eval_eq_ok h
    rw [eval, if_neg hbudget] at h
    obtain ⟨w, _, hfetch, -⟩ := bind_eq_ok.mp h
    exact ⟨w, (ofExcept_eq_ok.mp hfetch).1⟩
  | slice r start ih =>
    have hbudget := budget_of_eval_eq_ok h
    rw [eval, if_neg hbudget] at h
    obtain ⟨w, _, hfetch, h⟩ := bind_eq_ok.mp h
    obtain ⟨_, _, hstart, -⟩ := bind_eq_ok.mp h
    rcases List.mem_cons.mp hx with rfl | hx
    · exact ⟨w, (ofExcept_eq_ok.mp hfetch).1⟩
    · exact ih hstart hx
  | index r position ih =>
    have hbudget := budget_of_eval_eq_ok h
    rw [eval, if_neg hbudget] at h
    obtain ⟨w, _, hfetch, h⟩ := bind_eq_ok.mp h
    obtain ⟨_, _, -, h⟩ := bind_eq_ok.mp h
    obtain ⟨_, _, hposition, -⟩ := bind_eq_ok.mp h
    rcases List.mem_cons.mp hx with rfl | hx
    · exact ⟨w, (ofExcept_eq_ok.mp hfetch).1⟩
    · exact ih hposition hx
  | remainder left right ihl ihr =>
    have hbudget := budget_of_eval_eq_ok h
    rw [eval, if_neg hbudget] at h
    obtain ⟨_, _, hleft, h⟩ := bind_eq_ok.mp h
    obtain ⟨_, _, -, h⟩ := bind_eq_ok.mp h
    obtain ⟨_, _, hright, -⟩ := bind_eq_ok.mp h
    rcases List.mem_append.mp hx with hx | hx
    · exact ihl hleft hx
    · exact ihr hright hx
  | call f arguments =>
    have hbudget := budget_of_eval_eq_ok h
    rw [eval, if_neg hbudget] at h
    obtain ⟨_, _, -, h⟩ := bind_eq_ok.mp h
    obtain ⟨args, _, harguments, -⟩ := bind_eq_ok.mp h
    obtain ⟨argument, hargument, hname⟩ := List.mem_filterMap.mp hx
    cases argument with
    | integer n => cases hname
    | name y =>
      cases hname
      exact Argument.fetch_of_mapM (ofExcept_eq_ok.mp harguments).1 hargument

theorem Frame.fetch_eq_error (h : ∀ entry ∈ frame.bindings, entry.1 ≠ x) :
    frame.fetch x = .error (.unboundVariable x) := by
  have hlookup : frame.bindings.lookup x = none := by
    rw [List.lookup_eq_none_iff]
    intro entry hentry
    simpa using (h entry hentry).symm
  simp only [fetch, get?, hlookup]

end Bound

/-- Variables with names in lowercase letters, and what that means for all that looks at them: a name
with an uppercase letter or a digit is not found, as a variable or as an argument of a call, and an
expression that looks at one has no value. -/
structure Frame.Lowercase (frame : Frame) : Prop where
  names : ∀ entry ∈ frame.bindings, Text.isAll Char.isLower entry.1 = true
  eval_name : ∀ {x : Text} {invoke budget s}, x.HasUpperOrDigit →
    Text.isAll Char.isAlpha x = true → 0 ≤ budget →
    (Expr.ofText x).eval invoke frame budget s = .error (.error (.unboundVariable x)) s
  eval_call : ∀ {function x : Text} {before after : List Argument} {args : List Value}
    {callee : Function} {invoke budget s t}, x.HasUpperOrDigit → 0 ≤ budget →
    Run.resolve function s = .ok callee t →
    List.Forall₂ (fun argument v => argument.eval frame = .ok v) before args →
    (Expr.call function (before ++ .name x :: after)).eval invoke frame budget s =
      .error (.error (.unboundVariable x)) t
  eval_ne_ok : ∀ {e : Expr} {x : Text} {invoke budget s v t}, x.HasUpperOrDigit →
    x ∈ e.variables → e.eval invoke frame budget s ≠ .ok v t

theorem Expr.ofText_of_letters {x : Text} (h : Text.isAll Char.isAlpha x = true) :
    Expr.ofText x = .name x :=
  ofText_render_eq_reread (e := .name x) h rfl

/-- A call fails at the leftmost argument that is not bound, before it begins. -/
theorem Expr.eval_call_of_unbound {frame : Frame} {function x : Text}
    {before after : List Argument} {args : List Value} {callee : Function} {invoke : Invocation}
    {budget : Int} {s t : State} (hx : frame.fetch x = .error (.unboundVariable x))
    (hbudget : 0 ≤ budget) (hresolve : Run.resolve function s = .ok callee t)
    (hbefore : List.Forall₂ (fun argument v => argument.eval frame = .ok v) before args) :
    (Expr.call function (before ++ .name x :: after)).eval invoke frame budget s =
      .error (.error (.unboundVariable x)) t := by
  have harguments := mapM_eq_error_iff.mpr ⟨before, .name x, after, args, rfl, hbefore, hx⟩
  rw [eval, if_neg (by omega), Run.bind_of_ok hresolve]
  apply Run.bind_of_error
  rw [harguments]
  rfl

theorem Frame.lowercase {frame : Frame}
    (h : ∀ entry ∈ frame.bindings, Text.isAll Char.isLower entry.1 = true) : frame.Lowercase := by
  have hfetch {x : Text} (hx : x.HasUpperOrDigit) :
      frame.fetch x = .error (.unboundVariable x) := by
    refine fetch_eq_error fun entry hentry hname => ?_
    have hlower := h entry hentry
    rw [hname, Text.not_isAll_isLower hx] at hlower
    cases hlower
  constructor
  case names => exact h
  case eval_name =>
    intro x invoke budget s hx hletters hbudget
    rw [Expr.ofText_of_letters hletters, Expr.eval, if_neg (by omega)]
    simp only [hfetch hx]
    rfl
  case eval_call =>
    intro _ x _ _ _ _ _ _ _ _ hx hbudget hresolve hbefore
    exact Expr.eval_call_of_unbound (hfetch hx) hbudget hresolve hbefore
  case eval_ne_ok =>
    intro e x _ _ _ _ _ hx hmem hvalue
    obtain ⟨w, hw⟩ := Expr.fetch_of_eval_eq_ok hvalue hmem
    rw [hfetch hx] at hw
    cases hw

/-! ### Calls -/

namespace Run.Rules

/-- Names in lowercase letters are bound, and functions that the script compiles to are called; a body
without statements is complained about only when it is compiled. -/
def ofScript (script : Text) (limits : Limits) : Run.Rules where
  Binds x := Text.isAll Char.isLower x = true
  Holds _ := True
  Knows c := c.Faithful script limits
  Calls f := ∃ name, Function.extract script name = .ok f
  Fails reason := ∀ name, reason = .declaration (.emptyBody name) →
    Function.extract script name = .error (.emptyBody name)
  Assumes _ := True
  binds_lower h := h
  binds_param := by
    rintro f ⟨name, hf⟩
    exact (Function.wellFormed_of_extract hf).params
  holds_text _ := trivial
  holds_array _ := trivial
  holds_literal _ := trivial
  holds_remainder _ _ := trivial
  holds_length _ _ _ := trivial
  knows_resolve name hc := hc.resolve name
  calls_resolve hc hf := ⟨_, hc.extract_of_resolve hf⟩
  fails_resolve := by
    intro c name reason hc hreason other hother
    subst hother
    obtain ⟨r, d, hrun, -, hresolution⟩ := c.resolution name
    rw [Context.resolve_eq_error, hrun] at hreason
    cases hresolution with
    | known | released | compiled => cases hreason
    | refused _ hscript hextract =>
      cases hreason
      obtain rfl := hc.script_eq hscript
      obtain rfl := Function.eq_of_extract_eq_emptyBody hextract
      exact hextract
  fails_emptyBody := by
    rintro f ⟨name, hf⟩ hnone
    exact absurd hnone (Function.wellFormed_of_extract hf).statements_ne_nil
  fails_other := by
    rintro reason hother name rfl
    exact absurd rfl (hother (.emptyBody name))

end Run.Rules

namespace Function

/-- Compiled functions are well formed. In every call of one, whatever the arguments, the arrays, what
its context has compiled by then and how deep calls may nest, a body without statements is complained
about only for a name that cannot be compiled, and at every moment all variables have names in
lowercase letters, so that a variable or argument with an uppercase letter or a digit is unbound. -/
theorem compiled_calls_well_formed {script name : Text} {f : Function}
    (hf : extract script name = .ok f) (limits : Limits) (events : List Context.Event) (heap : Heap)
    (depth : Nat) (args : List Value) :
    let s : State := ⟨heap, (Context.ofScript script limits).after events⟩
    f.WellFormed ∧
    (∀ other t, f.invoke depth args s = .error (.error (.declaration (.emptyBody other))) t →
      extract script other = .error (.emptyBody other)) ∧
    ∀ m ∈ f.momentsOfInvoke depth args s, m.frame.Lowercase := by
  intro s
  have hs : (Run.Rules.ofScript script limits).Sound s :=
    ⟨fun _ _ _ => trivial, (Context.Faithful.ofScript script limits).after events⟩
  have hobeys : (Run.Rules.ofScript script limits).Obeys s (f.invoke depth args)
      (f.momentsOfInvoke depth args s) (fun _ => True) :=
    obeys_invoke depth hs ⟨name, hf⟩ fun _ _ => trivial
  refine ⟨wellFormed_of_extract hf, fun other t hrun => ?_, fun m hm => ?_⟩
  · have hends := hobeys.ends fun _ _ => trivial
    rw [hrun] at hends
    exact hends.2 _ rfl other rfl
  · have hgood := hobeys.upheld.of_mem (fun _ _ => trivial) hm
    exact Frame.lowercase fun entry hentry => (hgood.frame entry hentry).1

/-- The second statement looks at a name with a digit, in the frame of the call itself. -/
theorem compiled_calls_well_formed_sample :
    let script := "function go(a){b=f(a);return f(a1)}function f(c){return c}".toList
    let go : Function := ⟨"go".toList, ["a".toList], ["b=f(a)".toList, "return f(a1)".toList]⟩
    let s : State := ⟨{}, Context.ofScript script {}⟩
    extract script "go".toList = .ok go ∧
      (go.momentsOfInvoke 2 [.integer 1] s).map (fun m => m.frame.bindings.map Prod.fst) =
        [["a".toList], ["c".toList], ["c".toList], ["c".toList], ["a".toList],
          ["a".toList, "b".toList], ["a".toList, "b".toList], ["a".toList, "b".toList]] ∧
      go.WellFormed ∧
      (∀ other t, go.invoke 2 [.integer 1] s = .error (.error (.declaration (.emptyBody other))) t →
        extract script other = .error (.emptyBody other)) ∧
      ∀ m ∈ go.momentsOfInvoke 2 [.integer 1] s, m.frame.Lowercase := by
  intro script go s
  have hgo : extract script "go".toList = .ok go := by decide +kernel
  refine ⟨hgo, by decide +kernel, ?_⟩
  exact compiled_calls_well_formed hgo {} [] {} 2 [.integer 1]

end Function

end Scriptlet
