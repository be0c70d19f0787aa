import Mathlib.Data.List.TakeWhile
import StackScript.CompileError

set_option autoImplicit false

namespace StackScript

namespace Text

/-- The line that a cut falls into: its part before the cut and its part behind it. -/
structure LineAt (before after left right : List Char) : Prop where
  start : ∃ earlier, before = earlier ++ left ∧ (earlier = [] ∨ earlier.getLast? = some '\n')
  stop : ∃ later, after = right ++ later ∧ (later = [] ∨ later.head? = some '\n')
  oneLine : '\n' ∉ left ++ right

theorem newline_notMem_firstLine (text : List Char) : '\n' ∉ firstLine text := by
  intro member
  simpa using List.mem_takeWhile_imp member

theorem length_splitOn_newline (text : List Char) :
    (text.splitOn '\n').length = text.count '\n' + 1 := by
  rw [List.splitOn_eq_splitOnP]
  induction text with
  | nil => rfl
  | cons first rest ih =>
    rw [List.splitOnP_cons_eq_if_modifyHead]
    by_cases newline : first = '\n' <;> simp [newline, ih]

theorem splitOn_append_newline (text rest : List Char) :
    (text ++ '\n' :: rest).splitOn '\n' = text.splitOn '\n' ++ rest.splitOn '\n' := by
  simp only [List.splitOn_eq_splitOnP]
  exact List.splitOnP_append_cons text rest (by simp)

theorem exists_firstLine (text : List Char) :
    ∃ later, text = firstLine text ++ later ∧ (later = [] ∨ later.head? = some '\n') := by
  refine ⟨text.dropWhile (· != '\n'), List.takeWhile_append_dropWhile.symm, ?_⟩
  by_cases none : text.dropWhile (· != '\n') = []
  next => exact .inl none
  next =>
    have newline := List.head_dropWhile_not (· != '\n') none
    right
    rw [List.head?_eq_some_head none]
    simpa using newline

theorem exists_lastLine (text : List Char) :
    ∃ earlier, text = earlier ++ lastLine text ∧
      (earlier = [] ∨ earlier.getLast? = some '\n') := by
  obtain ⟨later, same, boundary⟩ := exists_firstLine text.reverse
  refine ⟨later.reverse, ?_, ?_⟩
  next =>
    have turned := congrArg List.reverse same
    rwa [List.reverse_reverse, List.reverse_append] at turned
  next => simpa using boundary

theorem lineAt_lines (before after : List Char) :
    LineAt before after (lastLine before) (firstLine after) where
  start := exists_lastLine before
  stop := exists_firstLine after
  oneLine := by
    have left : '\n' ∉ lastLine before := by
      simpa [lastLine, firstLine] using newline_notMem_firstLine before.reverse
    simp [left, newline_notMem_firstLine]

theorem LineAt.getElem?_splitOn {before after left right : List Char}
    (lineAt : LineAt before after left right) :
    ((before ++ after).splitOn '\n')[before.count '\n']? = some (left ++ right) := by
  obtain ⟨earlier, rfl, started⟩ := lineAt.start
  obtain ⟨later, rfl, stopped⟩ := lineAt.stop
  have plain : left.count '\n' = 0 :=
    List.count_eq_zero.mpr fun member => lineAt.oneLine (List.mem_append_left right member)
  have alone : (left ++ right).splitOn '\n' = [left ++ right] :=
    List.splitOn_eq_singleton lineAt.oneLine
  have first : ((left ++ right ++ later).splitOn '\n').head? = some (left ++ right) := by
    rcases stopped with rfl | newline
    next => rw [List.append_nil, alone, List.head?_cons]
    next =>
      obtain ⟨rest, rfl⟩ := List.head?_eq_some_iff.mp newline
      rw [splitOn_append_newline, alone, List.singleton_append, List.head?_cons]
  have whole : earlier ++ left ++ (right ++ later) = earlier ++ (left ++ right ++ later) := by simp
  rw [whole, List.count_append, plain, Nat.add_zero]
  rcases started with rfl | newline
  next => rwa [List.nil_append, List.count_nil, ← List.head?_eq_getElem?]
  next =>
    obtain ⟨front, rfl⟩ := List.getLast?_eq_some_iff.mp newline
    have number : (front ++ ['\n']).count '\n' = (front.splitOn '\n').length := by
      rw [length_splitOn_newline, List.count_append]
      rfl
    rwa [number, List.append_assoc, List.singleton_append, splitOn_append_newline,
      List.getElem?_append_right (Nat.le_refl _), Nat.sub_self, ← List.head?_eq_getElem?]

structure Trimmed (text trimmed : List Char) : Prop where
  ends : ∃ front back, text = front ++ trimmed ++ back ∧
    ∀ character ∈ front ++ back, isBlank character = true
  start : ∀ first ∈ trimmed.head?, isBlank first = false
  stop : ∀ last ∈ trimmed.getLast?, isBlank last = false

theorem not_isBlank_of_mem_head?_dropWhile {text : List Char} {first : Char}
    (isFirst : first ∈ (text.dropWhile isBlank).head?) : isBlank first = false := by
  have nonempty : text.dropWhile isBlank ≠ [] := by
    intro empty
    simp [empty] at isFirst
  rw [List.head?_eq_some_head nonempty, Option.mem_some_iff] at isFirst
  rw [← isFirst]
  exact List.head_dropWhile_not isBlank nonempty

theorem trimmed_trim (text : List Char) : Trimmed text (trim text) := by
  let front := text.takeWhile isBlank
  let back := ((text.dropWhile isBlank).reverse.takeWhile isBlank).reverse
  have cutFront : front ++ text.dropWhile isBlank = text := List.takeWhile_append_dropWhile
  have cutBack : trim text ++ back = text.dropWhile isBlank := by
    rw [trim, ← List.reverse_append, List.takeWhile_append_dropWhile, List.reverse_reverse]
  refine ⟨⟨front, back, ?_, ?_⟩, ?_, ?_⟩
  next => rw [List.append_assoc, cutBack, cutFront]
  next =>
    intro character member
    rcases List.mem_append.mp member with inFront | inBack
    next => exact List.mem_takeWhile_imp inFront
    next => exact List.mem_takeWhile_imp (List.mem_reverse.mp inBack)
  next =>
    -- The cut behind leaves the first character, if it leaves any.
    intro first isFirst
    apply @not_isBlank_of_mem_head?_dropWhile text
    rw [← cutBack, List.head?_append, Option.mem_def.mp isFirst, Option.some_or]
    rfl
  next =>
    intro last isLast
    rw [trim, List.getLast?_reverse] at isLast
    exact not_isBlank_of_mem_head?_dropWhile isLast

def IsBoundary (text : List Char) (offset : Nat) : Prop :=
  ∃ before after, text = before ++ after ∧ byteLength before = offset

theorem before_of_le {offset : Nat} {text : List Char} (past : byteLength text ≤ offset) :
    before offset text = text := by
  induction text generalizing offset with
  | nil => rfl
  | cons first rest ih =>
    have positive := first.utf8Size_pos
    rw [byteLength] at past
    rw [before, if_neg (by omega), ih (by omega)]

end Text

namespace Position

theorem foldl_next_of_notMem {text : List Char} (oneLine : '\n' ∉ text) (position : Position) :
    text.foldl next position = ⟨position.line, position.column + text.length⟩ := by
  induction text generalizing position with
  | nil => rfl
  | cons first rest ih =>
    rw [List.mem_cons, not_or] at oneLine
    rw [List.foldl_cons, ih oneLine.2, next, if_neg (Ne.symm oneLine.1), List.length_cons,
      Nat.add_assoc, Nat.add_comm 1]

theorem line_foldl_next (text : List Char) (position : Position) :
    (text.foldl next position).line = position.line + text.count '\n' := by
  induction text generalizing position with
  | nil => rfl
  | cons first rest ih =>
    rw [List.foldl_cons, ih, next]
    by_cases newline : first = '\n'
    next =>
      rw [if_pos newline, newline, List.count_cons_self, Nat.add_assoc, Nat.add_comm 1]
    next => rw [if_neg newline, List.count_cons_of_ne newline]

theorem ofOffset_of_lineAt {before after left right : List Char}
    (lineAt : Text.LineAt before after left right) :
    ofOffset (before ++ after) (Text.byteLength before) =
      ⟨1 + before.count '\n', 1 + left.length⟩ := by
  obtain ⟨earlier, rfl, boundary⟩ := lineAt.start
  have plain : '\n' ∉ left := fun member => lineAt.oneLine (List.mem_append_left right member)
  have started : earlier.foldl next first = ⟨1 + earlier.count '\n', 1⟩ := by
    rcases boundary with rfl | newline
    next => rfl
    next =>
      obtain ⟨front, rfl⟩ := List.getLast?_eq_some_iff.mp newline
      rw [List.foldl_append, List.foldl_cons, List.foldl_nil, next, if_pos rfl, line_foldl_next]
      simp [first, Nat.add_assoc]
  rw [ofOffset_byteLength, List.foldl_append, started, foldl_next_of_notMem plain,
    List.count_append, List.count_eq_zero.mpr plain, Nat.add_zero]

theorem lineAround_byteLength (before after : List Char) :
    lineAround (before ++ after) (Text.byteLength before) =
      Text.trim (Text.lastLine before ++ Text.firstLine after) := by
  have within : min (Text.byteLength before) (Text.byteLength (before ++ after)) =
      Text.byteLength before := by
    rw [Text.byteLength_append]
    omega
  rw [lineAround, within, Text.cut?_byteLength]

theorem ofOffset_of_le {source : List Char} {offset : Nat}
    (past : Text.byteLength source ≤ offset) :
    ofOffset source offset = ofOffset source (Text.byteLength source) := by
  rw [ofOffset, ofOffset, Text.before_of_le past, Text.before_of_le (Nat.le_refl _)]

theorem lineAround_of_le {source : List Char} {offset : Nat}
    (past : Text.byteLength source ≤ offset) :
    lineAround source offset = lineAround source (Text.byteLength source) := by
  rw [lineAround, lineAround, Nat.min_eq_right past, Nat.min_self]

def Precedes (position other : Position) : Prop :=
  position.line < other.line ∨ position.line = other.line ∧ position.column < other.column

theorem Precedes.trans {first second third : Position} (before : first.Precedes second)
    (after : second.Precedes third) : first.Precedes third := by
  unfold Precedes at *
  omega

theorem Precedes.ne {position other : Position} (precedes : position.Precedes other) :
    position ≠ other := by
  rintro rfl
  unfold Precedes at precedes
  omega

theorem precedes_next (position : Position) (character : Char) :
    position.Precedes (position.next character) := by
  unfold Precedes next
  split
  next => exact .inl (Nat.lt_succ_self _)
  next => exact .inr ⟨rfl, Nat.lt_succ_self _⟩

theorem precedes_foldl_next {text : List Char} (nonempty : text ≠ []) (position : Position) :
    position.Precedes (text.foldl next position) := by
  induction text generalizing position with
  | nil => exact absurd rfl nonempty
  | cons first rest ih =>
    have step := position.precedes_next first
    by_cases last : rest = []
    next => rwa [last]
    next => exact step.trans (ih last (position.next first))

theorem precedes_of_lt {source : List Char} {offset other : Nat}
    (boundary : Text.IsBoundary source offset) (otherBoundary : Text.IsBoundary source other)
    (lt : offset < other) : (ofOffset source offset).Precedes (ofOffset source other) := by
  obtain ⟨before, after, rfl, rfl⟩ := boundary
  obtain ⟨left, right, same, rfl⟩ := otherBoundary
  rcases List.append_eq_append_iff.mp same with ⟨middle, rfl, -⟩ | ⟨middle, rfl, -⟩
  next =>
    have nonempty : middle ≠ [] := by
      rintro rfl
      simp at lt
    rw [same, ofOffset_byteLength, List.append_assoc, ofOffset_byteLength, List.foldl_append]
    exact precedes_foldl_next nonempty _
  next =>
    rw [Text.byteLength_append] at lt
    omega

/-- Positions resolve faithfully. The line of an offset that is a boundary or lies past the end is
one more than the newlines before it; its column is one more than the characters between the last of
them and the offset; and the line that is shown with it is, trimmed, the line of that number among
those that the newlines of the source set apart. A later boundary has a later position, so no two
boundaries share one. -/
theorem resolves_faithfully (source : List Char) :
    (∀ offset, Text.IsBoundary source offset ∨ Text.byteLength source < offset →
      ∃ before after left right, source = before ++ after ∧
        Text.byteLength before = min offset (Text.byteLength source) ∧
        Text.LineAt before after left right ∧
        ofOffset source offset = ⟨1 + before.count '\n', 1 + left.length⟩ ∧
        (source.splitOn '\n')[(ofOffset source offset).line - 1]? = some (left ++ right) ∧
        Text.Trimmed (left ++ right) (lineAround source offset)) ∧
    ∀ offset other, Text.IsBoundary source offset → Text.IsBoundary source other →
      (offset < other → (ofOffset source offset).Precedes (ofOffset source other)) ∧
      (ofOffset source offset = ofOffset source other → offset = other) := by
  constructor
  next =>
    intro offset reachable
    obtain ⟨before, after, rfl, length, same, sameLine⟩ :
        ∃ before after, source = before ++ after ∧
          Text.byteLength before = min offset (Text.byteLength source) ∧
          ofOffset source offset = ofOffset source (Text.byteLength before) ∧
          lineAround source offset = lineAround source (Text.byteLength before) := by
      rcases reachable with ⟨before, after, rfl, rfl⟩ | past
      next =>
        refine ⟨before, after, rfl, ?_, rfl, rfl⟩
        rw [Text.byteLength_append]
        omega
      next =>
        have past := Nat.le_of_lt past
        exact ⟨source, [], (List.append_nil source).symm, (Nat.min_eq_right past).symm,
          ofOffset_of_le past, lineAround_of_le past⟩
    have lineAt := Text.lineAt_lines before after
    have position := same.trans (ofOffset_of_lineAt lineAt)
    refine ⟨before, after, _, _, rfl, length, lineAt, position, ?_, ?_⟩
    next =>
      rw [position, Nat.add_sub_cancel_left]
      exact lineAt.getElem?_splitOn
    next =>
      rw [sameLine, lineAround_byteLength]
      exact Text.trimmed_trim _
  next =>
    intro offset other boundary otherBoundary
    refine ⟨precedes_of_lt boundary otherBoundary, fun same => ?_⟩
    rcases Nat.lt_trichotomy offset other with lt | equal | lt
    next => exact absurd same (precedes_of_lt boundary otherBoundary lt).ne
    next => exact equal
    next => exact absurd same.symm (precedes_of_lt otherBoundary boundary lt).ne

-- Offset 6 stands between letters of two bytes, in a line with blanks at both ends.
theorem resolves_faithfully_between_accents :
    let source := "a\n é ü \nz".toList
    Text.IsBoundary source 6 ∧ Text.IsBoundary source 9 ∧ Text.byteLength source < 20 ∧
      ofOffset source 6 = ⟨2, 4⟩ ∧ (source.splitOn '\n')[1]? = some " é ü ".toList ∧
      Text.Trimmed " é ü ".toList (lineAround source 6) ∧
      lineAround source 6 = "é ü".toList ∧
      (ofOffset source 6).Precedes (ofOffset source 9) ∧
      (source.splitOn '\n')[2]? = some "z".toList ∧
      Text.Trimmed "z".toList (lineAround source 20) := by
  intro source
  have first : Text.IsBoundary source 6 := ⟨"a\n é ".toList, "ü \nz".toList, by decide, by decide⟩
  have second : Text.IsBoundary source 9 := ⟨"a\n é ü ".toList, "\nz".toList, by decide, by decide⟩
  have past : Text.byteLength source < 20 := by decide
  obtain ⟨resolves, ordered⟩ := resolves_faithfully source
  obtain ⟨before, after, left, right, -, -, -, -, line, trimmed⟩ := resolves 6 (.inl first)
  obtain ⟨_, _, last, rest, -, -, -, -, lastLine, lastTrimmed⟩ := resolves 20 (.inr past)
  have position : ofOffset source 6 = ⟨2, 4⟩ := by decide
  have lastPosition : (ofOffset source 20).line = 3 := by decide
  have shown : (source.splitOn '\n')[1]? = some " é ü ".toList := by decide
  have lastShown : (source.splitOn '\n')[2]? = some "z".toList := by decide
  rw [position] at line
  rw [lastPosition] at lastLine
  rw [← Option.some.inj (shown.symm.trans line)] at trimmed
  rw [← Option.some.inj (lastShown.symm.trans lastLine)] at lastTrimmed
  exact ⟨first, second, past, position, shown, trimmed, by decide,
    (ordered 6 9 first second).1 (by decide), lastShown, lastTrimmed⟩

end Position

theorem CompileError.exists_report {error : CompileError} {before after : List Char}
    (scanned : ∀ lexical, error ≠ .lexical lexical)
    (start : error.span.start = Text.byteLength before) :
    ∃ left right, Text.LineAt before after left right ∧
      error.report (before ++ after) = error.message ++ "\n  --> line " ++
        toString (1 + before.count '\n') ++ ", column " ++ toString (1 + left.length) ++
        if (Text.trim (left ++ right)).isEmpty then ""
        else "\n  | " ++ String.ofList (Text.trim (left ++ right)) := by
  have lineAt := Text.lineAt_lines before after
  refine ⟨Text.lastLine before, Text.firstLine after, lineAt, ?_⟩
  cases error with
  | lexical lexical => exact absurd rfl (scanned lexical)
  | fault cause span | reference name span =>
    simp only [report, start, Position.ofOffset_of_lineAt lineAt, Position.lineAround_byteLength]

end StackScript
