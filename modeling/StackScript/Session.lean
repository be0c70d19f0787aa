import StackScript.Program.Code
import StackScript.Machine

set_option autoImplicit false

namespace StackScript

structure Session where
  machine : Machine := {}
  console : Console := {}
  names : Names := []
  code : Code := []

namespace Session

def append (session : Session) : List Statement → Except CompileError Unit × Session
  | [] => (.ok (), session)
  | first :: rest =>
    match first.generate session.names with
    | (.ok code, names) => append { session with names, code := session.code ++ code } rest
    | (.error error, names) => (.error error, { session with names })

def load (session : Session) (source : List Char) : Except CompileError Code × Session :=
  let cleared := { session with code := [] }
  match Program.ofSource source with
  | .error error => (.error error, cleared)
  | .ok program =>
    let (result, loaded) := cleared.append program.statements
    (result.map fun _ => loaded.code, loaded)

def run (session : Session) (code : Code) : Except RuntimeError Int32 × Session :=
  let outcome := Machine.run code session.machine session.console
  (outcome.result, { session with machine := outcome.machine, console := outcome.console })

def call (session : Session) (builtin : Builtin) (arguments : List Int32) :
    Except RuntimeError Int32 × Session :=
  let (result, console) := session.console.call builtin arguments
  (result, { session with console })

def define (session : Session) (name : String) : Session :=
  { session with names := session.names.define name }

def reset (session : Session) : Session :=
  { session with machine := {} }

end Session

end StackScript
