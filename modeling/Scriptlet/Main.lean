import Scriptlet.Console.CommandLine
import Scriptlet.Console.Prompt

namespace Scriptlet.Main

open Console

/-- Whether an error has a number, which may be given with either sign. -/
def hasNumber (code : UInt32) (n : Nat) : Bool :=
  code.toNat = n || (0 - code).toNat = n

/-- What a failed read means. A directory in place of a file and a file in place of a directory
differ in the number of the error only. -/
def fileError : IO.Error → FileError
  | .noFileOrDirectory .. => .notFound
  | .permissionDenied .. => .notPermitted
  | .inappropriateType _ code _ => if hasNumber code 21 then .isDirectory else .notDirectory
  | .invalidArgument (some path) code details =>
    if hasNumber code 36 then .nameTooLong
    else .other (IO.Error.invalidArgument (some path) code details).toString
  | reason => .other reason.toString

def readScript (path : String) : IO (Except FileError Text) := do
  try
    let bytes ← IO.FS.readBinFile path
    return match String.fromUTF8? bytes with
      | some s => .ok s.toList
      | none => .error .notText
  catch reason => return .error (fileError reason)

partial def promptLoop (script : Text) : IO Unit := do
  IO.print Prompt.promptText
  let out ← IO.getStdout
  out.flush
  let line ← (← IO.getStdin).getLine
  let event :=
    if line.isEmpty then .endOfInput
    else .line (line.toList.reverse.dropWhile (· == '\n')).reverse
  let reply := Prompt.reply script event
  IO.print reply.output
  IO.eprint reply.errorOutput
  out.flush
  unless reply.ends do promptLoop script

end Scriptlet.Main

open Scriptlet Console in
def main (args : List String) : IO UInt32 := do
  let request := CommandLine.Request.ofArgs (args.map String.toList)
  let script ← match request.path? with
    | some path => Main.readScript (String.ofList path)
    | none => pure (.error .notText)
  match request.action script with
  | .exit outcome =>
    IO.print outcome.output
    IO.eprint outcome.errorOutput
    return outcome.code.toUInt32
  | .prompt script =>
    IO.print Prompt.banner
    Main.promptLoop script
    return 0
