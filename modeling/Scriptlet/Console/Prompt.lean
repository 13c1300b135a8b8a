import Scriptlet.Console.Highlight
import Scriptlet.Console.Literal

/-!
The interactive prompt. The reply to each event depends on the script and that event only; the
prompt ends with a command to leave, the end of the input, or a failure to read. The log of runs that
an environment may ask for is left out: it goes to the error output and is not part of a reply.
-/

namespace Scriptlet.Console.Prompt

inductive Event where
  | line (text : Text)
  | interrupt
  | endOfInput
  | failure (reason : Text)
  deriving DecidableEq, Repr

/-- What is printed in reply to an event, and whether the prompt ends with it. -/
structure Reply where
  output : String := ""
  errorOutput : String := ""
  ends : Bool := false
  deriving DecidableEq, Repr

def styledLine (style : Style) (s : String) : String :=
  style.paint s ++ "\n"

def banner : String :=
  styledLine (.bold .cyan) "jsfunc interactive evaluator"
    ++ styledLine (.colour .darkGray) "  Call a function from the loaded script, e.g. go([5,9], 4)"
    ++ styledLine (.colour .darkGray) "  Type :help for available commands"
    ++ "\n"

def promptText : String :=
  "jsfunc〉"

def farewell : Reply where
  output := styledLine (.colour .cyan) "Goodbye!"
  ends := true

def help : String :=
  let command (names purpose : String) : String :=
    "  " ++ Style.paint (.colour .green) names ++ "  " ++ purpose ++ "\n"
  let sample (s : String) : String :=
    "    " ++ Style.paint (.colour .darkGray) "Example:" ++ "    " ++ s ++ "\n"
  "\n"
    ++ command ":help, :h" "Show this help message"
    ++ command ":funcs, :f" "List functions declared in the script"
    ++ command ":exit, :quit, :q" "Exit"
    ++ "\n"
    ++ "  " ++ Style.paint (.colour .yellow) "•" ++ " Arguments\n"
    ++ sample "integers: 4, -7"
    ++ sample "arrays: [5,9], [\"a\",\"b\"]"
    ++ sample "text: \"abc\" or bare abc"
    ++ "\n"

def functionList (script : Text) : String :=
  match Function.namesIn script with
  | [] => styledLine (.colour .darkGray) "  No functions found in script"
  | names => String.join (names.map fun name =>
      "  " ++ styledLine (.colour .blue) (String.ofList name))

def failureLine (reason : String) : String :=
  Style.paint (.bold .red) "✗" ++ " " ++ styledLine (.colour .red) reason

/-- The line that shows a value: texts between quotes, numbers and everything else in styles of
their own. -/
def valueLine (value : Contents) : String :=
  let shown := String.ofList value.render
  Style.paint (.bold .blue) "=>" ++ " " ++
    match value with
    | .text _ => styledLine (.colour .green) ("\"" ++ shown ++ "\"")
    | .integer _ => styledLine (.colour .yellow) shown
    | _ => styledLine (.bold .white) shown

def callOutput (script line : Text) : String :=
  match CallLine.ofText? line with
  | none => failureLine "expected a call such as name(arg, ...)"
  | some call =>
    match evaluate script call.function call.args with
    | .ok value => valueLine value
    | .error halt => failureLine halt.message

/-- The reply to a command, given without blank space around it. -/
def commandReply (script command : Text) : Reply :=
  if command = ":help".toList ∨ command = ":h".toList then { output := help }
  else if command = ":funcs".toList ∨ command = ":f".toList then { output := functionList script }
  else if command = ":exit".toList ∨ command = ":quit".toList ∨ command = ":q".toList then farewell
  else { output := styledLine (.colour .red) ("Unknown command: " ++ String.ofList command) }

def reply (script : Text) : Event → Reply
  | .line text =>
    match Text.trim text with
    | [] => {}
    | ':' :: name => commandReply script (':' :: name)
    | line => { output := callOutput script line }
  | .interrupt => { output := styledLine (.colour .yellow) "^C (use :exit to quit)" }
  | .endOfInput => farewell
  | .failure reason =>
    { errorOutput := styledLine (.colour .red) ("Error: " ++ String.ofList reason), ends := true }

/-- The replies to events up to the first that ends the prompt. The input ends after the last
event. -/
def replies (script : Text) : List Event → List Reply
  | [] => [reply script .endOfInput]
  | event :: events =>
    let first := reply script event
    if first.ends then [first] else first :: replies script events

/-- Everything printed at the prompt: what comes before the first event, what comes after each one,
and what went to the error output. -/
structure Transcript where
  output : List String
  errorOutput : String
  deriving DecidableEq, Repr

def transcript (script : Text) (events : List Event) : Transcript :=
  let answers := replies script events
  ⟨banner :: answers.map (·.output), String.join (answers.map (·.errorOutput))⟩

end Scriptlet.Console.Prompt
