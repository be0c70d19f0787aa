import StackScript.CommandLine

set_option autoImplicit false

namespace StackScript.CommandLine

/-- Files by name. There are no folders inside, and no files in the folders around it. -/
structure Folder where
  files : List (String × String)

inductive Folder.Place where
  | inside
  | around
  | file (content : String)
deriving DecidableEq, Repr

namespace Folder

def pathLimit : Nat := 4096

def partLimit : Nat := 255

def parts : List Char → List (List Char)
  | [] => [[]]
  | '/' :: rest => [] :: parts rest
  | first :: rest =>
    match parts rest with
    | [] => [[first]]
    | part :: more => (first :: part) :: more

/-- Follows one part of a path. Nothing is behind a file, not even the file itself. -/
def enter (folder : Folder) (place : Place) (part : List Char) : Except ReadFailure Place :=
  match place, part with
  | .file _, _ => .error .notDirectory
  | place, [] | place, ['.'] => .ok place
  | _, ['.', '.'] => .ok .around
  | place, part =>
    if partLimit < Text.byteLength part then .error .nameTooLong
    else
      match place, folder.files.lookup (String.ofList part) with
      | .inside, some content => .ok (.file content)
      | _, _ => .error .missing

def follow (folder : Folder) : Place → List (List Char) → Except ReadFailure Place
  | place, [] => .ok place
  | place, part :: rest => do
    follow folder (← folder.enter place part) rest

def start : List Char → Place
  | '/' :: _ => .around
  | _ => .inside

def content (folder : Folder) (path : List Char) : Except ReadFailure String :=
  if pathLimit ≤ Text.byteLength path then .error .nameTooLong
  else
    match folder.follow (start path) (parts path) with
    | .ok (.file content) => .ok content
    | .ok _ => .error .isDirectory
    | .error failure => .error failure

def read (folder : Folder) (standard : ByteArray) : Input → Except ReadFailure String
  | .sample => .ok sampleSource
  | .standard => decode standard
  | .file path => folder.content path.toList

def respond (folder : Folder) (standard : ByteArray) (words : List String) : Report :=
  Id.run (CommandLine.respond (fun input => pure (folder.read standard input)) words)

end Folder

end StackScript.CommandLine
