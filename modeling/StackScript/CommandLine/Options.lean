set_option autoImplicit false

namespace StackScript.CommandLine

inductive Argument where
  | flag (name : String)
  | file (path : String)
deriving DecidableEq, Repr

/-- The flags and files that words spell. Letters behind one dash are flags of their own, a lone
dash is a file, and so is every word behind a double dash. -/
def Argument.ofWords : List String → List Argument
  | [] => []
  | word :: rest =>
    match word.toList with
    | ['-', '-'] => rest.map file
    | '-' :: '-' :: _ => flag word :: ofWords rest
    | '-' :: letter :: letters =>
      (letter :: letters).map (fun letter => flag ("-" ++ letter.toString)) ++ ofWords rest
    | _ => file word :: ofWords rest

structure Options where
  ast : Bool := false
  run : Bool := false
  json : Bool := false
  verbosity : Nat := 0
  file : Option String := none
deriving DecidableEq, Repr

inductive UsageError where
  | unknownFlag (name : String)
  | repeatedFlag (name : String)
  | emptyPath
  | secondFile (path : String)
deriving DecidableEq, Repr

def UsageError.message : UsageError → String
  | unknownFlag name => "unknown flag '" ++ name ++ "'"
  | repeatedFlag name => "the flag '" ++ name ++ "' may be given only once"
  | emptyPath => "the path of the file is empty"
  | secondFile path => "unexpected second file '" ++ path ++ "'"

inductive Request where
  | help
  | compile (options : Options)
deriving DecidableEq, Repr

def Request.ofArguments (options : Options) : List Argument → Except UsageError Request
  | [] => .ok (.compile options)
  | .file path :: rest =>
    if path.isEmpty then .error .emptyPath
    else if options.file.isSome then .error (.secondFile path)
    else ofArguments { options with file := some path } rest
  | .flag name :: rest =>
    match name with
    | "--help" | "-h" => .ok .help
    | "--verbose" | "-v" => ofArguments { options with verbosity := options.verbosity + 1 } rest
    | "--ast" =>
      if options.ast then .error (.repeatedFlag name)
      else ofArguments { options with ast := true } rest
    | "--run" =>
      if options.run then .error (.repeatedFlag name)
      else ofArguments { options with run := true } rest
    | "--json" =>
      if options.json then .error (.repeatedFlag name)
      else ofArguments { options with json := true } rest
    | _ => .error (.unknownFlag name)

def Request.ofWords (words : List String) : Except UsageError Request :=
  ofArguments {} (Argument.ofWords words)

inductive Input where
  | sample
  | standard
  | file (path : String)
deriving DecidableEq, Repr

def Options.input (options : Options) : Input :=
  match options.file with
  | none => .sample
  | some "-" => .standard
  | some path => .file path

def usage : String :=
  "Compiles a small script to stack code.\n\n" ++
    "Usage: [OPTIONS] [FILE]\n\n" ++
    "  FILE           the source to compile, '-' for the standard input\n" ++
    "  --ast          print the program before the code\n" ++
    "  --run          run the code and print what it yields\n" ++
    "  --json         print a JSON snapshot instead of plain text\n" ++
    "  -v, --verbose  ask for more detail\n" ++
    "  -h, --help     print this text"

end StackScript.CommandLine
