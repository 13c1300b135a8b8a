import Scriptlet.Console.CommandLine
import Scriptlet.Proofs.Console.Pieces
import Scriptlet.Proofs.Console.Session
import Scriptlet.Proofs.Text.Cut

/-!
The command line and the prompt agree. One is given the arguments of a call apart, the other reads a
line in which they are joined by commas; the line is trimmed, cut at its first parenthesis, and cut
again at the commas outside brackets. Arguments that have no comma outside brackets and leave none
open are found again there, whatever else is in them, unless there is nothing but blank space between
the parentheses: then the line is read as a call without arguments.
-/

namespace Scriptlet.Console

def typedLine (name : Text) (args : List Text) : Text :=
  name ++ ['('] ++ [','].intercalate args ++ [')']

/-- An argument that is found again among others: every comma has a bracket open before it, and no
bracket is left open at the end. -/
structure Separable (arg : Text) : Prop where
  covered : Covered 0 arg
  closed : openAfter 0 arg = 0

instance (arg : Text) : Decidable (Separable arg) :=
  decidable_of_iff (Covered 0 arg ∧ openAfter 0 arg = 0)
    ⟨fun h => ⟨h.1, h.2⟩, fun h => ⟨h.covered, h.closed⟩⟩

/-- A name that the prompt reads as one: it is not empty, does not begin a command, and is neither cut
nor trimmed. -/
structure CallName (name : Text) : Prop where
  ne_nil : name ≠ []
  no_command : name.head? ≠ some ':'
  no_parenthesis : '(' ∉ name
  trimmed : Text.trim name = name

/-- Whether the line shows that there are arguments: it does not if the only one is blank. -/
def Visible (args : List Text) : Prop :=
  ∀ arg, args = [arg] → Text.isBlankText arg = false

variable {name : Text} {args : List Text}

theorem isBlankText_typed (hargs : Visible args) (hne : args ≠ []) :
    Text.isBlankText ([','].intercalate args) = false := by
  match args, hne with
  | [arg], _ => simpa [List.intercalate] using hargs arg rfl
  | first :: second :: rest, _ =>
    have hcomma : ',' ∈ [','].intercalate (first :: second :: rest) := by
      rw [List.intercalate_cons_cons]
      simp
    exact Text.isBlankText_eq_false hcomma (by decide)

/-- What is between the parentheses is read as the values of the arguments. -/
theorem listOfText_typed (hseparable : ∀ arg ∈ args, Separable arg) (hvisible : Visible args) :
    Literal.listOfText ([','].intercalate args) = args.map Literal.ofText := by
  by_cases hne : args = []
  · subst hne
    rfl
  · have hpieces : topLevelPieces ([','].intercalate args) = args := by
      apply topLevelPieces_intercalate hne
      · exact fun arg harg => (hseparable arg harg).covered
      · exact fun arg harg => (hseparable arg (List.dropLast_subset args harg)).closed
    rw [Literal.listOfText, isBlankText_typed hvisible hne, hpieces]
    rfl

theorem ofText?_typedLine (hname : CallName name) (hseparable : ∀ arg ∈ args, Separable arg)
    (hvisible : Visible args) :
    CallLine.ofText? (typedLine name args) = some ⟨name, args.map Literal.ofText⟩ := by
  have hcut : Text.cut? '(' (typedLine name args) = some (name, [','].intercalate args ++ [')']) := by
    rw [Text.cut?_eq_some_iff]
    exact ⟨by simp [typedLine], hname.no_parenthesis⟩
  have hend : Text.before? [')'] ([','].intercalate args ++ [')']) = some ([','].intercalate args) :=
    Text.before?_eq_some_iff.mpr rfl
  have hblank : Text.isBlankText name = false := by
    rw [Bool.eq_false_iff, ne_eq, ← Text.trim_eq_nil_iff, hname.trimmed]
    exact hname.ne_nil
  simp only [CallLine.ofText?, hcut, Option.bind_eq_bind, Option.bind_some, hend, hblank,
    hname.trimmed, listOfText_typed hseparable hvisible]
  rfl

/-- The line begins with the name and ends with a parenthesis, so there is nothing to trim. -/
theorem trim_typedLine (hname : CallName name) (args : List Text) :
    Text.trim (typedLine name args) = typedLine name args := by
  obtain ⟨c, rest, rfl⟩ := List.exists_cons_of_ne_nil hname.ne_nil
  exact Text.trim_enclosed (Text.isBlank_of_trim_eq_self hname.trimmed) (by decide)
    (rest ++ ['('] ++ [','].intercalate args)

namespace Prompt

/-- What stands on either side of the text of a value in the reply: the codes that switch its colour on
and off, and quotes around a text. -/
def marks : Contents → String × String
  | .text _ => ("\x1b[32m\"", "\"\x1b[0m")
  | .integer _ => ("\x1b[33m", "\x1b[0m")
  | _ => ("\x1b[1;37m", "\x1b[0m")

theorem valueLine_eq (value : Contents) :
    valueLine value = "\x1b[1;34m=>\x1b[0m " ++ (marks value).1 ++ String.ofList value.render ++
      (marks value).2 ++ "\n" := by
  have harrow : Style.paint (.bold .blue) "=>" ++ " " = "\x1b[1;34m=>\x1b[0m " := by decide
  have hwhite : (Style.bold .white).start = "\x1b[1;37m" := by decide
  unfold valueLine
  rw [harrow]
  cases value with
  | integer n =>
    have hyellow : (Style.colour .yellow).start = "\x1b[33m" := by decide
    simp only [styledLine, Style.paint, marks, hyellow, String.append_assoc]
  | text t =>
    have hopen : (Style.colour .green).start ++ "\"" = "\x1b[32m\"" := by decide
    have hclose : "\"" ++ "\x1b[0m" = "\"\x1b[0m" := by decide
    simp only [styledLine, Style.paint, marks, ← hopen, ← hclose, String.append_assoc]
  | array | function =>
    simp only [styledLine, Style.paint, marks, hwhite, String.append_assoc]

theorem failureLine_eq (reason : String) :
    failureLine reason = "\x1b[1;31m✗\x1b[0m \x1b[31m" ++ reason ++ "\x1b[0m\n" := by
  have hbefore : Style.paint (.bold .red) "✗" ++ " " ++ (Style.colour .red).start =
      "\x1b[1;31m✗\x1b[0m \x1b[31m" := by decide
  have hafter : "\x1b[0m" ++ "\n" = "\x1b[0m\n" := by decide
  rw [← hbefore, ← hafter]
  simp only [failureLine, styledLine, Style.paint, String.append_assoc]

/-- At the prompt a typed call is answered with the outcome of the evaluation, whatever other lines
left behind. -/
theorem respond_typedLine (script : Text) (w : World) (hname : CallName name)
    (hseparable : ∀ arg ∈ args, Separable arg) (hvisible : Visible args) :
    (respond script w (.line (typedLine name args))).1 =
      { output := outcomeLine (evaluate script name (args.map Literal.ofText)) } := by
  have hcall : (Event.line (typedLine name args)).call? = some ⟨name, args.map Literal.ofText⟩ := by
    obtain ⟨c, rest, rfl⟩ := List.exists_cons_of_ne_nil hname.ne_nil
    unfold Event.call?
    dsimp only
    rw [trim_typedLine hname]
    split
    · rename_i hnil
      cases hnil
    · rename_i command hcommand
      obtain ⟨rfl, -⟩ := List.cons.inj hcommand
      exact (hname.no_command rfl).elim
    · exact ofText?_typedLine hname hseparable hvisible
  rw [respond_fst, reply_of_call? hcall]

end Prompt

namespace CommandLine

/-- The command line and the prompt agree on a call: both evaluate the same function on the same
values, and both write what comes of it, the same text of the value or the same message, the prompt in
colours. This holds at any time of a session, and for all arguments that the line keeps apart and shows;
they may hold quotes, parentheses, blank space, closing brackets too many, or nothing at all. -/
theorem agrees_with_prompt (script path name : Text) (args : List Text) (w : World)
    (hname : CallName name) (hseparable : ∀ arg ∈ args, Separable arg) (hvisible : Visible args) :
    let values := args.map Literal.ofText
    let action := (Request.ofArgs (path :: name :: args)).action (.ok script)
    let reply := (Prompt.respond script w (.line (typedLine name args))).1
    CallLine.ofText? (Text.trim (typedLine name args)) = some ⟨name, values⟩ ∧
    ((∃ value, evaluate script name values = .ok value ∧
        action = .exit { code := 0, output := String.ofList value.render ++ "\n" } ∧
        reply = { output := "\x1b[1;34m=>\x1b[0m " ++ (Prompt.marks value).1 ++
          String.ofList value.render ++ (Prompt.marks value).2 ++ "\n" }) ∨
      ∃ halt, evaluate script name values = .error halt ∧
        action = .exit { code := 1, errorOutput := "Error: " ++ halt.message ++ "\n" } ∧
        reply = { output := "\x1b[1;31m✗\x1b[0m \x1b[31m" ++ halt.message ++ "\x1b[0m\n" }) := by
  intro values action reply
  refine ⟨?_, ?_⟩
  · rw [trim_typedLine hname]
    exact ofText?_typedLine hname hseparable hvisible
  have haction : action = .exit (callOutcome script name args) := rfl
  have hreply : reply = { output := Prompt.outcomeLine (evaluate script name values) } :=
    Prompt.respond_typedLine script w hname hseparable hvisible
  rw [haction, hreply, callOutcome]
  cases heval : evaluate script name values with
  | ok value =>
    refine .inl ⟨value, rfl, rfl, ?_⟩
    rw [Prompt.outcomeLine, Prompt.valueLine_eq]
  | error halt =>
    refine .inr ⟨halt, rfl, rfl, ?_⟩
    rw [Prompt.outcomeLine, Prompt.failureLine_eq]

def sampleScript : Text :=
  "function go(a,b,c){a[1]=b;return a}".toList

/-- An array with commas inside its brackets, a text with a bracket too many, a parenthesis and a
quote, and no text at all. -/
def sampleArgs : List Text :=
  ["[5,[6,7]]".toList, "](' ".toList, []]

theorem agrees_with_prompt_sample :
    typedLine "go".toList sampleArgs = "go([5,[6,7]],](' ,)".toList ∧
      (Request.ofArgs ("script.js".toList :: "go".toList :: sampleArgs)).action (.ok sampleScript) =
        .exit { code := 0, output := "[5,](']\n" } ∧
      (Prompt.respond sampleScript {} (.line (typedLine "go".toList sampleArgs))).1 =
        { output := "\x1b[1;34m=>\x1b[0m \x1b[1;37m[5,](']\x1b[0m\n" } := by
  have hname : CallName "go".toList := ⟨by decide, by decide, by decide, by decide⟩
  have hvisible : Visible sampleArgs := by
    rintro arg ⟨⟩
  have hvalue : evaluate sampleScript "go".toList (sampleArgs.map Literal.ofText) =
      .ok (.array [.integer 5, .text "]('".toList]) := by decide +kernel
  obtain ⟨-, hagrees⟩ := agrees_with_prompt sampleScript "script.js".toList "go".toList sampleArgs {}
    hname (by decide) hvisible
  refine ⟨by decide, ?_⟩
  rcases hagrees with ⟨value, heval, haction, hreply⟩ | ⟨halt, heval, -⟩
  · obtain rfl := Except.ok.inj (hvalue.symm.trans heval)
    refine ⟨haction, hreply.trans ?_⟩
    decide +kernel
  · cases hvalue.symm.trans heval

end CommandLine

end Scriptlet.Console
