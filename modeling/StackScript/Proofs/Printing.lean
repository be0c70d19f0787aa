import StackScript.Proofs.Digits
import StackScript.Proofs.Matching
import StackScript.Proofs.Printable

set_option autoImplicit false

namespace StackScript

def Operator.symbol : Operator → Symbol
  | add => .plus
  | sub => .minus
  | mul => .times

/-- An expression without parentheses, except those of calls. -/
def Expr.print : Expr → List Char
  | number _ value => (toString value).toList
  | identifier _ name => name.toList
  | binary _ operator left right =>
    left.print ++ (' ' :: operator.symbol.text.toList ++ (' ' :: right.print))
  | unaryCall _ builtin argument => builtin.name.toList ++ ('(' :: argument.print ++ [')'])
  | binaryCall _ builtin first second =>
    builtin.name.toList ++ ('(' :: first.print ++ (',' :: ' ' :: second.print ++ [')']))

def Statement.print : Statement → List Char
  | define _ name value => name.toList ++ (' ' :: '=' :: ' ' :: value.print)
  | expression _ value => value.print

def Program.print (program : Program) : List Char :=
  program.statements.flatMap fun statement => statement.print ++ ['\n']

abbrev Part := Token.Kind × List Char

namespace Part

def symbol (sign : Symbol) : Part := (.symbol sign, sign.text.toList)

def name (text : String) : Part := (.name, text.toList)

def newline : Part := (.newline, ['\n'])

end Part

def Token.part (source : List Char) (token : Token) : Part :=
  (token.kind, token.span.slice source)

def Expr.parts : Expr → List Part
  | number _ value =>
    if value < 0 then [.symbol .minus, (.number, Decimal.digits value)]
    else [(.number, Decimal.digits value)]
  | identifier _ name => [.name name]
  | binary _ operator left right => left.parts ++ .symbol operator.symbol :: right.parts
  | unaryCall _ builtin argument =>
    .name builtin.name :: .symbol .openParen :: (argument.parts ++ [.symbol .closeParen])
  | binaryCall _ builtin first second =>
    .name builtin.name :: .symbol .openParen ::
      (first.parts ++ .symbol .comma :: (second.parts ++ [.symbol .closeParen]))

def Statement.parts : Statement → List Part
  | define _ name value => .name name :: .symbol .assign :: value.parts
  | expression _ value => value.parts

theorem Token.scan_of_longest {text rest : List Char} {pattern : Pattern} {offset : Nat}
    {others : List Token} (nonempty : text ≠ [])
    (found : Pattern.longest (text ++ rest) = some (pattern, text.length))
    (scanned : scan (offset + Text.byteLength text) rest = .ok others) :
    scan offset (text ++ rest) =
      .ok (pattern.tokens ⟨offset, offset + Text.byteLength text⟩ ++ others) := by
  cases text with
  | nil => exact absurd rfl nonempty
  | cons first behind =>
    rw [List.cons_append] at found ⊢
    -- A scan cuts the match off the whole text, but what follows off the text behind `first`.
    have taken : (first :: (behind ++ rest)).take (first :: behind).length = first :: behind :=
      congrArg (first :: ·) List.take_left
    have dropped : (behind ++ rest).drop ((first :: behind).length - 1) = rest :=
      List.drop_left
    unfold scan
    simp only [found, taken, dropped, scanned]

def Prints (text : List Char) (parts : List Part) (rest : List Char) : Prop :=
  ∀ before others, Token.scan (Text.byteLength (before ++ text)) rest = .ok others →
    ∃ tokens, Token.scan (Text.byteLength before) (text ++ rest) = .ok (tokens ++ others) ∧
      tokens.map (Token.part (before ++ (text ++ rest))) = parts

namespace Prints

theorem nil (rest : List Char) : Prints [] [] rest := by
  intro before others scanned
  rw [List.append_nil] at scanned
  exact ⟨[], scanned, rfl⟩

theorem append {first second rest : List Char} {parts others : List Part}
    (left : Prints first parts (second ++ rest)) (right : Prints second others rest) :
    Prints (first ++ second) (parts ++ others) rest := by
  intro before after scanned
  rw [← List.append_assoc] at scanned
  -- A scan goes from left to right, but what it gives is known from the end on.
  obtain ⟨tail, scannedTail, partsTail⟩ := right (before ++ first) after scanned
  obtain ⟨head, scannedHead, partsHead⟩ := left before (tail ++ after) scannedTail
  refine ⟨head ++ tail, ?_, ?_⟩
  · rw [List.append_assoc, List.append_assoc, scannedHead]
  · rw [List.append_assoc, List.map_append, partsHead, ← partsTail, List.append_assoc]

theorem token {text rest : List Char} {kind : Token.Kind} (nonempty : text ≠ [])
    (found : Pattern.longest (text ++ rest) = some (.token kind, text.length)) :
    Prints text [(kind, text)] rest := by
  intro before others scanned
  rw [Text.byteLength_append] at scanned
  refine ⟨_, Token.scan_of_longest nonempty found scanned, ?_⟩
  simp only [Pattern.tokens, Token.part, List.map_cons, List.map_nil]
  rw [← List.append_assoc, Span.slice_append]

theorem gap {rest : List Char} (noGap : ∀ next ∈ rest.head?, Pattern.isGap next = false) :
    Prints [' '] [] rest := by
  intro before others scanned
  rw [Text.byteLength_append] at scanned
  have found : Pattern.longest ([' '] ++ rest) = some (.blank, 1) := Pattern.longest_blank noGap
  exact ⟨[], Token.scan_of_longest (List.cons_ne_nil _ _) found scanned, rfl⟩

theorem symbol {sign : Symbol} {first : Char} {rest : List Char}
    (text : sign.text.toList = [first]) (stops : ∀ next ∈ rest.head?, next ∉ ['=', '*', '/']) :
    Prints [first] [.symbol sign] rest := by
  rw [Part.symbol, text]
  exact token (List.cons_ne_nil _ _) (Pattern.longest_symbol text stops)

theorem name {name : String} {rest : List Char} (isName : Text.isName name.toList = true)
    (closes : Pattern.Closes rest) : Prints name.toList [.name name] rest := by
  refine token ?_ (Pattern.longest_name isName closes)
  intro none
  simp [none, Text.isName, Text.isIdentifier] at isName

theorem digits (value : Int) {rest : List Char} (closes : Pattern.Closes rest) :
    Prints (Decimal.digits value) [(.number, Decimal.digits value)] rest :=
  token (Decimal.digits_ne_nil value) (Pattern.longest_number (Decimal.digits_ne_nil value)
    (fun _ member => Decimal.isDigit_of_mem_digits member) closes)

theorem exists_ofSource {text : List Char} {parts : List Part} (prints : Prints text parts []) :
    ∃ tokens, Token.ofSource text = .ok tokens ∧ tokens.map (Token.part text) = parts := by
  have nothing : Token.scan (Text.byteLength ([] ++ text)) [] = .ok [] := by
    unfold Token.scan
    rfl
  obtain ⟨tokens, scanned, same⟩ := prints [] [] nothing
  rw [List.append_nil, List.append_nil] at scanned
  rw [List.nil_append, List.append_nil] at same
  refine ⟨tokens, ?_, same⟩
  rw [Token.ofSource, show Token.scan 0 text = .ok tokens from scanned]
  rfl

end Prints

theorem Builtin.isName_name (builtin : Builtin) : Text.isName builtin.name.toList = true := by
  cases builtin <;> decide

theorem Operator.exists_character (operator : Operator) :
    ∃ first, operator.symbol.text.toList = [first] := by
  cases operator with
  | add => exact ⟨'+', rfl⟩
  | sub => exact ⟨'-', rfl⟩
  | mul => exact ⟨'*', rfl⟩

def FollowsExpr (rest : List Char) : Prop :=
  ∀ next ∈ rest.head?, next ∈ [' ', ',', ')', '\n']

theorem FollowsExpr.cons (next : Char) (rest : List Char) (follows : next ∈ [' ', ',', ')', '\n']) :
    FollowsExpr (next :: rest) := by
  simpa [FollowsExpr] using follows

theorem FollowsExpr.closes {rest : List Char} (follows : FollowsExpr rest) :
    Pattern.Closes rest := by
  intro next first
  have cases := follows next first
  simp only [List.mem_cons, List.not_mem_nil, or_false] at cases
  rcases cases with rfl | rfl | rfl | rfl <;> decide

theorem FollowsExpr.stops {rest : List Char} (follows : FollowsExpr rest) :
    ∀ next ∈ rest.head?, next ∉ ['=', '*', '/'] := by
  intro next first
  have cases := follows next first
  simp only [List.mem_cons, List.not_mem_nil, or_false] at cases
  rcases cases with rfl | rfl | rfl | rfl <;> decide

def StartsExpr (text : List Char) : Prop :=
  ∃ first rest, text = first :: rest ∧ (Pattern.isWordPart first = true ∨ first = '-')

theorem StartsExpr.append {text : List Char} (starts : StartsExpr text) (rest : List Char) :
    StartsExpr (text ++ rest) := by
  obtain ⟨first, behind, rfl, which⟩ := starts
  exact ⟨first, behind ++ rest, rfl, which⟩

theorem StartsExpr.other {text rest : List Char} (starts : StartsExpr text) (property : Char → Prop)
    (word : ∀ first, property first → Pattern.isWordPart first = false ∧ first ≠ '-') :
    ∀ next ∈ (text ++ rest).head?, ¬ property next := by
  obtain ⟨first, behind, rfl, which⟩ := starts
  intro next same holds
  cases same
  obtain ⟨plain, apart⟩ := word first holds
  rcases which with part | minus
  · simp [part] at plain
  · exact apart minus

theorem StartsExpr.noGap {text : List Char} (starts : StartsExpr text) (rest : List Char) :
    ∀ next ∈ (text ++ rest).head?, Pattern.isGap next = false := by
  intro next first
  have plain := starts.other (fun next => Pattern.isGap next = true) ?_ next first
  · simpa using plain
  · intro first gap
    simp only [Pattern.isGap, Bool.or_eq_true, beq_iff_eq] at gap
    rcases gap with (rfl | rfl) | rfl <;> decide

theorem StartsExpr.stops {text : List Char} (starts : StartsExpr text) (rest : List Char) :
    ∀ next ∈ (text ++ rest).head?, next ∉ ['=', '*', '/'] := by
  refine starts.other (· ∈ ['=', '*', '/']) fun first member => ?_
  simp only [List.mem_cons, List.not_mem_nil, or_false] at member
  rcases member with rfl | rfl | rfl <;> decide

namespace Expr

theorem startsExpr_of_isName {name : List Char} (isName : Text.isName name = true)
    (rest : List Char) : StartsExpr (name ++ rest) := by
  cases name with
  | nil => simp [Text.isName, Text.isIdentifier] at isName
  | cons first others =>
    have word : Pattern.isWordStart first = true := by
      simp only [Text.isName, Text.isIdentifier, Bool.and_eq_true] at isName
      exact isName.1.1
    exact ⟨first, others ++ rest, rfl, .inl (Pattern.isWordPart_of_isWordStart word)⟩

theorem startsExpr_digits (value : Int) : StartsExpr (Decimal.digits value) := by
  cases same : Decimal.digits value with
  | nil => exact absurd same (Decimal.digits_ne_nil value)
  | cons first rest =>
    have member : first ∈ Decimal.digits value := by simp [same]
    have digit := Decimal.isDigit_of_mem_digits member
    exact ⟨first, rest, rfl, .inl (Pattern.isWordPart_of_isDigit digit)⟩

theorem startsExpr_print {expr : Expr} (named : expr.Every Named) : StartsExpr expr.print := by
  induction expr with
  | number span value =>
    by_cases negative : value < 0
    · rw [print, Decimal.toString_of_neg negative]
      exact ⟨'-', _, rfl, .inr rfl⟩
    · rw [print, Decimal.toString_of_nonneg (by omega)]
      exact startsExpr_digits value
  | identifier span name =>
    have isName : Text.isName name.toList = true := named
    have starts := startsExpr_of_isName isName []
    rwa [List.append_nil] at starts
  | binary span operator left right ihLeft ihRight =>
    obtain ⟨first, rest, same, which⟩ := ihLeft named.2.1
    exact ⟨first, _, by rw [print, same, List.cons_append], which⟩
  | unaryCall span builtin argument => exact startsExpr_of_isName builtin.isName_name _
  | binaryCall span builtin first second => exact startsExpr_of_isName builtin.isName_name _

theorem prints_number (span : Span) (value : Int) {rest : List Char} (follows : FollowsExpr rest) :
    Prints (number span value).print (number span value).parts rest := by
  have digits := Prints.digits value follows.closes
  by_cases negative : value < 0
  · rw [print, parts, Decimal.toString_of_neg negative, if_pos negative]
    exact (Prints.symbol rfl ((startsExpr_digits value).stops rest)).append digits
  · rw [print, parts, Decimal.toString_of_nonneg (by omega), if_neg negative]
    exact digits

theorem prints_spaced {text rest : List Char} {parts : List Part} (starts : StartsExpr text)
    (prints : Prints text parts rest) : Prints (' ' :: text) parts rest :=
  (Prints.gap (starts.noGap rest)).append prints

theorem prints_operator (operator : Operator) (rest : List Char) :
    Prints (' ' :: operator.symbol.text.toList) [.symbol operator.symbol] (' ' :: rest) := by
  obtain ⟨first, text⟩ := operator.exists_character
  have space : ∀ next ∈ (' ' :: rest).head?, next ∉ ['=', '*', '/'] :=
    (FollowsExpr.cons _ rest (by decide)).stops
  have noGap : Pattern.isGap first = false := by
    cases operator <;> cases text <;> rfl
  rw [text]
  exact (Prints.gap (by simpa using noGap)).append (Prints.symbol text space)

theorem prints_call {name : String} (isName : Text.isName name.toList = true)
    {text rest : List Char} {parts : List Part} (starts : StartsExpr text)
    (follows : FollowsExpr rest) (arguments : Prints text parts (')' :: rest)) :
    Prints (name.toList ++ ('(' :: text ++ [')']))
      (.name name :: .symbol .openParen :: (parts ++ [.symbol .closeParen])) rest := by
  have closing : Prints [')'] [.symbol .closeParen] rest := Prints.symbol rfl follows.stops
  have opening : Prints ['('] [.symbol .openParen] (text ++ [')'] ++ rest) := by
    rw [List.append_assoc]
    exact Prints.symbol rfl (starts.stops _)
  have closes : Pattern.Closes ('(' :: (text ++ [')'] ++ rest)) := by
    simp [Pattern.Closes, Pattern.isWordPart]
  exact (Prints.name isName closes).append (opening.append (Prints.append arguments closing))

theorem prints {expr : Expr} (named : expr.Every Named) {rest : List Char}
    (follows : FollowsExpr rest) : Prints expr.print expr.parts rest := by
  induction expr generalizing rest with
  | number span value => exact prints_number span value follows
  | identifier span name => exact Prints.name named follows.closes
  | binary span operator left right ihLeft ihRight =>
    have spaced := prints_spaced (startsExpr_print named.2.2) (ihRight named.2.2 follows)
    have joined := (prints_operator operator (right.print ++ rest)).append spaced
    exact (ihLeft named.2.1 (.cons _ _ (by decide))).append joined
  | unaryCall span builtin argument ih =>
    exact prints_call builtin.isName_name (startsExpr_print named.2) follows
      (ih named.2 (.cons _ _ (by decide)))
  | binaryCall span builtin first second ihFirst ihSecond =>
    have startsFirst := startsExpr_print named.2.1
    have spaced := prints_spaced (startsExpr_print named.2.2)
      (ihSecond named.2.2 (.cons ')' rest (by decide)))
    have comma : Prints [','] [.symbol .comma] (' ' :: second.print ++ ')' :: rest) :=
      Prints.symbol rfl (FollowsExpr.cons _ _ (by decide)).stops
    have both := (ihFirst named.2.1 (.cons _ _ (by decide))).append (comma.append spaced)
    simpa [print, parts] using prints_call builtin.isName_name (startsFirst.append _) follows both

end Expr

theorem Statement.Printable.prints {statement : Statement} (printable : statement.Printable)
    {rest : List Char} (follows : FollowsExpr rest) :
    Prints statement.print statement.parts rest := by
  cases statement with
  | expression span value => exact Expr.prints printable.named follows
  | define span name value =>
    have isName : Text.isName name.toList = true := printable.target name rfl
    have spaced := Expr.prints_spaced (Expr.startsExpr_print printable.named)
      (Expr.prints printable.named follows)
    have space := (FollowsExpr.cons ' ' (value.print ++ rest) (by decide)).stops
    have sign : Prints ['='] [.symbol .assign] (' ' :: value.print ++ rest) :=
      Prints.symbol rfl space
    have gap : Prints [' '] [] ('=' :: ' ' :: value.print ++ rest) :=
      Prints.gap (by simp [Pattern.isGap])
    have closes := (FollowsExpr.cons ' ' ('=' :: ' ' :: value.print ++ rest) (by decide)).closes
    exact (Prints.name isName closes).append (gap.append (sign.append spaced))

def Program.parts (program : Program) : List Part :=
  program.statements.flatMap fun statement => statement.parts ++ [.newline]

theorem Program.prints {statements : List Statement}
    (printable : ∀ statement ∈ statements, statement.Printable) :
    Prints (print ⟨statements⟩) (parts ⟨statements⟩) [] := by
  induction statements with
  | nil => exact Prints.nil []
  | cons first rest ih =>
    have others := ih fun statement member => printable statement (by simp [member])
    have newline : Prints ['\n'] [.newline] (print ⟨rest⟩ ++ []) :=
      Prints.token (List.cons_ne_nil _ _) (Pattern.longest_newline _)
    have statement := (printable first (by simp)).prints
      (FollowsExpr.cons '\n' (print ⟨rest⟩ ++ []) (by decide))
    exact (statement.append newline).append others

theorem Program.exists_scan {program : Program} (printable : program.Printable) :
    ∃ tokens, Token.ofSource program.print = .ok tokens ∧
      tokens.map (Token.part program.print) = program.parts :=
  (Program.prints printable.statements).exists_ofSource

end StackScript
