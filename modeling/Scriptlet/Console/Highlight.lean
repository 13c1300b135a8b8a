import Scriptlet.Text.Pattern

/-!
Terminal styles, and the colouring of a line while it is typed. A command is one piece. Of a call, the
part before the first parenthesis is one piece and every character after it another; quoted spans, from
a quote to the next one of its kind, are green with their quotes.
-/

namespace Scriptlet.Console

inductive Colour where
  | red
  | green
  | yellow
  | blue
  | magenta
  | cyan
  | white
  | darkGray
  deriving DecidableEq, Repr

def Colour.code : Colour → String
  | .red => "31"
  | .green => "32"
  | .yellow => "33"
  | .blue => "34"
  | .magenta => "35"
  | .cyan => "36"
  | .white => "37"
  | .darkGray => "90"

inductive Style where
  | plain
  | colour (c : Colour)
  | bold (c : Colour)
  deriving DecidableEq, Repr

def Style.start : Style → String
  | .plain => ""
  | .colour c => "\x1b[" ++ c.code ++ "m"
  | .bold c => "\x1b[1;" ++ c.code ++ "m"

def Style.paint (style : Style) (s : String) : String :=
  match style with
  | .plain => s
  | style => style.start ++ s ++ "\x1b[0m"

namespace Highlight

/-- The style of a character outside quotes. -/
def outside (c : Char) : Style :=
  if c.isDigit ∨ c = '-' then .colour .yellow
  else if c ∈ ['(', ')', '[', ']', ','] then .colour .white
  else .plain

/-- The pieces of a text, one for each character, inside the span of an open quote if there is
one. -/
def characters (quote : Option Char) : Text → List (Style × Text)
  | [] => []
  | c :: rest =>
    match quote with
    | some q => (.colour .green, [c]) :: characters (if c = q then none else some q) rest
    | none =>
      if c = '"' ∨ c = '\'' then (.colour .green, [c]) :: characters (some c) rest
      else (outside c, [c]) :: characters none rest

def isCommand (line : Text) : Bool :=
  (Text.after? [':'] (Text.trimStart line)).isSome

def pieces (line : Text) : List (Style × Text) :=
  if isCommand line then [(.bold .magenta, line)]
  else
    let (name, rest) := Text.run (· != '(') line
    (.colour .cyan, name) :: characters none rest

end Highlight

end Scriptlet.Console
