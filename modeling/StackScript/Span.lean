import StackScript.Text.Offset

set_option autoImplicit false

namespace StackScript

structure Span where
  start : Nat
  stop : Nat
deriving DecidableEq, Repr, Inhabited

namespace Span

def join (left right : Span) : Span :=
  ⟨min left.start right.start, max left.stop right.stop⟩

/-- The text under a span: empty unless both ends are cuts of the source, in order. -/
def slice (span : Span) (source : List Char) : List Char :=
  if span.stop < span.start then []
  else
    match Text.cut? span.start source with
    | none => []
    | some (_, rest) =>
      match Text.cut? (span.stop - span.start) rest with
      | none => []
      | some (text, _) => text

theorem slice_append (left middle right : List Char) :
    slice ⟨Text.byteLength left, Text.byteLength left + Text.byteLength middle⟩
      (left ++ middle ++ right) = middle := by
  have ordered : ¬ Text.byteLength left + Text.byteLength middle < Text.byteLength left := by
    omega
  rw [slice, if_neg ordered, List.append_assoc, Text.cut?_byteLength]
  simp [Text.cut?_byteLength]

def text (span : Span) : String :=
  toString span.start ++ ".." ++ toString span.stop

end Span

end StackScript
