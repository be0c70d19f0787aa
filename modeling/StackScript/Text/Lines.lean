set_option autoImplicit false

namespace StackScript.Text

/-- A line ends at a newline, or at a carriage return with a newline behind it. Behind the last
newline there is one more line only if there is more text. -/
def lines : List Char → List (List Char)
  | [] => []
  | '\n' :: rest => [] :: lines rest
  | '\r' :: '\n' :: rest => [] :: lines rest
  | character :: rest =>
    match lines rest with
    | [] => [[character]]
    | first :: others => (character :: first) :: others

def isInline (character : Char) : Bool :=
  character != '\n' && character != '\r'

theorem lines_cons {character : Char} (inline : isInline character = true) (rest : List Char) :
    lines (character :: rest) =
      match lines rest with
      | [] => [[character]]
      | first :: others => (character :: first) :: others := by
  rw [lines]
  · rintro rfl
    cases inline
  · rintro _ rfl
    cases inline

theorem lines_of_inline {line : List Char} (nonempty : line ≠ [])
    (inline : ∀ character ∈ line, isInline character = true) : lines line = [line] := by
  induction line with
  | nil => exact absurd rfl nonempty
  | cons first rest ih =>
    rw [lines_cons (inline first (by simp))]
    cases rest with
    | nil => rfl
    | cons second others =>
      rw [ih (by simp) fun character member => inline character (by simp [member])]

theorem lines_append_newline {line : List Char}
    (inline : ∀ character ∈ line, isInline character = true) (rest : List Char) :
    lines (line ++ '\n' :: rest) = line :: lines rest := by
  induction line with
  | nil => rw [List.nil_append, lines]
  | cons first others ih =>
    rw [List.cons_append, lines_cons (inline first (by simp)),
      ih fun character member => inline character (by simp [member])]

theorem lines_intercalate {pieces : List (List Char)}
    (inline : ∀ piece ∈ pieces, piece ≠ [] ∧ ∀ character ∈ piece, isInline character = true) :
    lines (['\n'].intercalate pieces) = pieces := by
  induction pieces with
  | nil => rfl
  | cons first rest ih =>
    obtain ⟨nonempty, plain⟩ := inline first (by simp)
    cases rest with
    | nil => simpa using lines_of_inline nonempty plain
    | cons second others =>
      have later := ih fun piece member => inline piece (by simp [member])
      rw [List.intercalate_cons_cons, List.append_assoc, List.singleton_append,
        lines_append_newline plain, later]

end StackScript.Text
