import Scriptlet.Console.CommandLine

/-!
Reading a file by its path, in a tree of directories that is known in part. A path is followed step
by step from a directory, with the directories above it at hand for the steps that lead up; the
topmost one is above itself. Only directories can be left by a step, and even an empty step leaves.
-/

namespace Scriptlet.Console

inductive FileTree where
  | file (contents : Text)
  | folder (entries : List (Text × FileTree))
  deriving Repr

namespace FileTree

def bytes : Text → Nat
  | [] => 0
  | c :: rest => c.utf8Size + bytes rest

/-- The longest name in a directory, in bytes. -/
def longestName : Nat :=
  255

def longestPath : Nat :=
  4095

/-- What a path leads to. A name that is too long is an error of its own where a directory would be
asked for it. -/
def follow (above : List FileTree) (here : FileTree) : List Text → Except FileError FileTree
  | [] => .ok here
  | step :: rest =>
    match here with
    | .file _ => .error .notDirectory
    | .folder entries =>
      if step = [] ∨ step = ['.'] then follow above here rest
      else if step = ['.', '.'] then
        match above with
        | [] => follow [] here rest
        | parent :: above => follow above parent rest
      else if longestName < bytes step then .error .nameTooLong
      else match entries.lookup step with
        | some next => follow (here :: above) next rest
        | none => .error .notFound

def contents : FileTree → Except FileError Text
  | .file contents => .ok contents
  | .folder _ => .error .isDirectory

/-- The text of the file at a path, read in a directory; a path that begins with a slash leads from the
top. Nothing is known of the directories above this one. -/
def read (here : FileTree) (path : Text) (top : FileTree := .folder []) : Except FileError Text := do
  if path = [] then .error .notFound
  else if longestPath < bytes path then .error .nameTooLong
  else match path with
    | '/' :: rest => (← follow [] top (Text.pieces '/' rest)).contents
    | path => (← follow [.folder []] here (Text.pieces '/' path)).contents

end FileTree

def CommandLine.actionIn (here : FileTree) (args : List Text) (top : FileTree := .folder []) : Action :=
  let request := Request.ofArgs args
  request.action <| match request.path? with
    | some path => here.read path top
    | none => .error .notFound

end Scriptlet.Console
