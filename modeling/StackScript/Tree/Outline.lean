import StackScript.Phrase
import StackScript.Text.Quoted

set_option autoImplicit false

namespace StackScript

namespace Phrase

def headline (source : List Char) (phrase : Phrase) : String :=
  if phrase.kind.isToken then
    phrase.kind.name ++ " " ++ String.ofList (Text.quote (phrase.span.slice source))
  else phrase.kind.name ++ " [" ++ phrase.span.text ++ "]"

mutual

def outline (source : List Char) (depth : Nat) : Phrase → List String
  | node kind span children =>
    (String.ofList (List.replicate (2 * depth) ' ') ++ headline source (node kind span children)) ::
      if kind.isToken then [] else outlineAll source (depth + 1) children

def outlineAll (source : List Char) (depth : Nat) : List Phrase → List String
  | [] => []
  | first :: rest => outline source depth first ++ outlineAll source depth rest

end

end Phrase

def Tree.outline (tree : Tree) (source : List Char) : List String :=
  match tree.root?.bind tree.phrase with
  | none => []
  | some phrase => phrase.outline source 0

end StackScript
