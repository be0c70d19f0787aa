set_option autoImplicit false

namespace StackScript

inductive Json where
  | null
  | bool (value : Bool)
  | number (value : Int)
  | string (value : String)
  | array (items : List Json)
  | object (fields : List (String × Json))

namespace Json

def hexDigits (value : Nat) : List Char :=
  [Nat.digitChar (value / 16), Nat.digitChar (value % 16)]

def escape (character : Char) : List Char :=
  if character = '"' then ['\\', '"']
  else if character = '\\' then ['\\', '\\']
  else if character = '\x08' then ['\\', 'b']
  else if character = '\t' then ['\\', 't']
  else if character = '\n' then ['\\', 'n']
  else if character = '\x0c' then ['\\', 'f']
  else if character = '\r' then ['\\', 'r']
  else if character.toNat < 32 then ['\\', 'u', '0', '0'] ++ hexDigits character.toNat
  else [character]

def quote (text : String) : String :=
  String.ofList (['"'] ++ text.toList.flatMap escape ++ ['"'])

def indent (depth : Nat) : String :=
  String.ofList (List.replicate (2 * depth) ' ')

mutual

def pretty (depth : Nat) : Json → String
  | null => "null"
  | bool value => if value then "true" else "false"
  | number value => toString value
  | string value => quote value
  | array [] => "[]"
  | array items => "[\n" ++ prettyItems (depth + 1) items ++ "\n" ++ indent depth ++ "]"
  | object [] => "\x7b\x7d"
  | object fields => "\x7b\n" ++ prettyFields (depth + 1) fields ++ "\n" ++ indent depth ++ "\x7d"

def prettyItems (depth : Nat) : List Json → String
  | [] => ""
  | [item] => indent depth ++ pretty depth item
  | item :: rest => indent depth ++ pretty depth item ++ ",\n" ++ prettyItems depth rest

def prettyFields (depth : Nat) : List (String × Json) → String
  | [] => ""
  | [(name, value)] => indent depth ++ quote name ++ ": " ++ pretty depth value
  | (name, value) :: rest =>
    indent depth ++ quote name ++ ": " ++ pretty depth value ++ ",\n" ++ prettyFields depth rest

end

def tagged (name : String) (value : Json) : Json :=
  object [(name, value)]

def ofOption : Option Json → Json
  | some value => value
  | none => null

end Json

end StackScript
