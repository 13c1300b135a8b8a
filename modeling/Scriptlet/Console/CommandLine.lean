import Scriptlet.Console.Literal

/-!
The command line: a script file, and the function to run with its arguments. Without a function the
script is opened at the prompt. How files are read is left open. The error output is that of an
environment that does not ask for a log.
-/

namespace Scriptlet.Console

inductive FileError where
  | notFound
  | notPermitted
  | notDirectory
  | isDirectory
  | nameTooLong
  /-- The file holds something that is not UTF-8. -/
  | notText
  /-- Anything else the operating system reports. -/
  | other (reason : String)
  deriving DecidableEq, Repr

/-- The operating system's words, with the number it gives the error. -/
def FileError.message : FileError → String
  | .notFound => "No such file or directory (os error 2)"
  | .notPermitted => "Permission denied (os error 13)"
  | .notDirectory => "Not a directory (os error 20)"
  | .isDirectory => "Is a directory (os error 21)"
  | .nameTooLong => "File name too long (os error 36)"
  | .notText => "stream did not contain valid UTF-8"
  | .other reason => reason

namespace CommandLine

/-- What a finished command leaves behind. -/
structure Outcome where
  code : Nat
  output : String := ""
  errorOutput : String := ""
  deriving DecidableEq, Repr

inductive Request where
  | usage
  | openPrompt (path : Text)
  | call (path function : Text) (args : List Text)
  deriving DecidableEq, Repr

def Request.ofArgs : List Text → Request
  | [] => .usage
  | [path] => .openPrompt path
  | path :: function :: args => .call path function args

/-- What a command does next: end, or go on at the prompt. -/
inductive Action where
  | exit (outcome : Outcome)
  | prompt (script : Text)
  deriving DecidableEq, Repr

def usageOutcome : Outcome where
  code := 2
  errorOutput := "usage: jsfunc <script-file> [function [args...]]\n"

def unreadableOutcome (path : Text) (reason : FileError) : Outcome where
  code := 1
  errorOutput := "Error: cannot read " ++ String.ofList path ++ ": " ++ reason.message ++ "\n"

def callOutcome (script function : Text) (args : List Text) : Outcome :=
  match evaluate script function (args.map Literal.ofText) with
  | .ok value => { code := 0, output := String.ofList value.render ++ "\n" }
  | .error halt => { code := 1, errorOutput := "Error: " ++ halt.message ++ "\n" }

/-- What to do on a request whose file was read, if it names one. -/
def Request.action (script : Except FileError Text) : Request → Action
  | .usage => .exit usageOutcome
  | .openPrompt path =>
    match script with
    | .ok script => .prompt script
    | .error reason => .exit (unreadableOutcome path reason)
  | .call path function args =>
    .exit <| match script with
      | .ok script => callOutcome script function args
      | .error reason => unreadableOutcome path reason

def Request.path? : Request → Option Text
  | .usage => none
  | .openPrompt path => some path
  | .call path _ _ => some path

end CommandLine

end Scriptlet.Console
