import StackScript.Text.Printable
import StackScript.Text.Extender
import StackScript.Text.Classes

set_option autoImplicit false

namespace StackScript.Text

/-- The halfwidth sound marks extend the letter before them, and are letters with a shape of their
own. -/
def isSoundMark (character : Char) : Bool :=
  character == '\uff9e' || character == '\uff9f'

def isPlain (character : Char) : Bool :=
  isPrintable character && !isIgnorable character &&
    (!isExtender character || isSoundMark character)

/-- The written form of a character: a letter behind a backslash for the common ones, and the code
point in braces for the others that have no shape of their own. -/
def escape (character : Char) : List Char :=
  if character = '"' then ['\\', '"']
  else if character = '\\' then ['\\', '\\']
  else if character = '\t' then ['\\', 't']
  else if character = '\r' then ['\\', 'r']
  else if character = '\n' then ['\\', 'n']
  else if character = '\x00' then ['\\', '0']
  else if isPlain character then [character]
  else ['\\', 'u', '\x7b'] ++ Nat.toDigits 16 character.toNat ++ ['\x7d']

def quote (text : List Char) : List Char :=
  ['"'] ++ text.flatMap escape ++ ['"']

end StackScript.Text
