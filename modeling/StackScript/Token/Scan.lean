import StackScript.Token.Pattern
import StackScript.Position

set_option autoImplicit false

namespace StackScript

structure LexicalError where
  offset : Nat
  position : Position
  character : Char
  context : String
deriving DecidableEq, Repr

namespace LexicalError

def ofOffset (source : List Char) (offset : Nat) : LexicalError :=
  { offset
    position := .ofOffset source offset
    character := ((Text.cut? offset source).bind (·.2.head?)).getD '\x00'
    context := String.ofList (Position.lineAround source offset) }

def span (error : LexicalError) : Span :=
  ⟨error.offset, error.offset + error.character.utf8Size⟩

def message (error : LexicalError) : String :=
  "Unexpected character '" ++ error.character.toString ++ "' at line " ++
    toString error.position.line ++ ", column " ++ toString error.position.column ++
    " (position " ++ toString error.offset ++ ")\n  Context: " ++ error.context

end LexicalError

def Pattern.tokens (span : Span) : Pattern → List Token
  | .token kind => [⟨kind, span⟩]
  | _ => []

namespace Token

def scan (offset : Nat) (text : List Char) : Except Nat (List Token) :=
  match text with
  | [] => .ok []
  | first :: rest =>
    match Pattern.longest (first :: rest) with
    | none => .error offset
    | some (pattern, extent) =>
      let stop := offset + Text.byteLength ((first :: rest).take extent)
      match scan stop (rest.drop (extent - 1)) with
      | .error failed => .error failed
      | .ok tokens => .ok (pattern.tokens ⟨offset, stop⟩ ++ tokens)
termination_by text.length

def ofSource (source : List Char) : Except LexicalError (List Token) :=
  (scan 0 source).mapError (LexicalError.ofOffset source)

end Token

end StackScript
