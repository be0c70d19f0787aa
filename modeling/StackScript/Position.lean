import StackScript.Text.Offset
import StackScript.Text.Classes

set_option autoImplicit false

namespace StackScript

structure Position where
  line : Nat
  column : Nat
deriving DecidableEq, Repr

namespace Position

def first : Position := ⟨1, 1⟩

def next (position : Position) (character : Char) : Position :=
  if character = '\n' then ⟨position.line + 1, 1⟩ else ⟨position.line, position.column + 1⟩

def ofOffset (source : List Char) (offset : Nat) : Position :=
  (Text.before offset source).foldl next first

@[simp] theorem ofOffset_byteLength (left right : List Char) :
    ofOffset (left ++ right) (Text.byteLength left) = left.foldl next first := by
  simp [ofOffset]

/-- The line around an offset, trimmed. An offset past the end counts as the end; an offset inside
a character belongs to no line and shows the whole source. -/
def lineAround (source : List Char) (offset : Nat) : List Char :=
  match Text.cut? (min offset (Text.byteLength source)) source with
  | none => Text.trim source
  | some (left, right) => Text.trim (Text.lastLine left ++ Text.firstLine right)

end Position

end StackScript
