set_option autoImplicit false

namespace StackScript

inductive Record where
  | atom (text : String)
  | fields (name : String) (entries : List (String × Record))
  | items (name : String) (entries : List Record)

namespace Record

def indent (depth : Nat) : String :=
  String.ofList (List.replicate (4 * depth) ' ')

mutual

def pretty (depth : Nat) : Record → String
  | atom text => text
  | fields name entries =>
    name ++ " \x7b\n" ++ prettyFields (depth + 1) entries ++ indent depth ++ "\x7d"
  | items name entries => name ++ "(\n" ++ prettyItems (depth + 1) entries ++ indent depth ++ ")"

def prettyFields (depth : Nat) : List (String × Record) → String
  | [] => ""
  | (name, value) :: rest =>
    indent depth ++ name ++ ": " ++ pretty depth value ++ ",\n" ++ prettyFields depth rest

def prettyItems (depth : Nat) : List Record → String
  | [] => ""
  | value :: rest => indent depth ++ pretty depth value ++ ",\n" ++ prettyItems depth rest

end

end Record

end StackScript
