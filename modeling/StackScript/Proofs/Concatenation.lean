import StackScript.Proofs.Agreement.Lowering
import StackScript.Proofs.Agreement.Reading
import StackScript.Proofs.RoundTrip
import StackScript.Proofs.Seam

set_option autoImplicit false

namespace StackScript

def Expr.shift (offset : Nat) : Expr → Expr
  | number span value => number (span.shift offset) value
  | identifier span name => identifier (span.shift offset) name
  | binary span operator left right =>
    binary (span.shift offset) operator (left.shift offset) (right.shift offset)
  | unaryCall span builtin argument => unaryCall (span.shift offset) builtin (argument.shift offset)
  | binaryCall span builtin first second =>
    binaryCall (span.shift offset) builtin (first.shift offset) (second.shift offset)

def Statement.shift (offset : Nat) : Statement → Statement
  | define span name value => define (span.shift offset) name (value.shift offset)
  | expression span value => expression (span.shift offset) (value.shift offset)

theorem Expr.shift_zero (expr : Expr) : expr.shift 0 = expr := by
  induction expr with
  | number | identifier => rfl
  | binary span operator left right ihLeft ihRight => rw [shift, ihLeft, ihRight]; rfl
  | unaryCall span builtin argument ih => rw [shift, ih]; rfl
  | binaryCall span builtin first second ihFirst ihSecond => rw [shift, ihFirst, ihSecond]; rfl

theorem Statement.shift_zero : shift 0 = id := by
  funext statement
  cases statement with
  | define span name value | expression span value => rw [shift, Expr.shift_zero]; rfl

namespace Span

theorem shift_join (offset : Nat) (left right : Span) :
    (left.shift offset).join (right.shift offset) = (left.join right).shift offset := by
  simp only [join, shift, Nat.add_min_add_right, Nat.add_max_add_right]

theorem Within.slice_shift {source : List Char} {span : Span} (within : span.Within source)
    (front back : List Char) :
    (span.shift (Text.byteLength front)).slice (front ++ source ++ back) = span.slice source := by
  obtain ⟨before, text, after, rfl, -, rfl⟩ := within
  have moved : shift (Text.byteLength front)
      ⟨Text.byteLength before, Text.byteLength before + Text.byteLength text⟩ =
        ⟨Text.byteLength (front ++ before),
          Text.byteLength (front ++ before) + Text.byteLength text⟩ := by
    simp only [shift, Text.byteLength_append, mk.injEq]
    omega
  have whole : front ++ (before ++ text ++ after) ++ back =
      (front ++ before) ++ text ++ (after ++ back) := by
    simp
  rw [moved, whole, slice_append, slice_append]

end Span

def Correspondence.moved (front source back : List Char) : Correspondence where
  source := source
  other := front ++ source ++ back
  spans := fun span other => other = span.shift (Text.byteLength front)
  join := by
    rintro first last _ _ rfl rfl
    exact Span.shift_join _ first last

section moved

variable {front source back : List Char}

theorem Token.alike_moved {tokens : List Token}
    (within : ∀ token ∈ tokens, token.span.Within source) :
    Alike (.moved front source back) tokens (tokens.map (shift (Text.byteLength front))) := by
  induction tokens with
  | nil => exact .nil
  | cons token rest ih =>
    simp only [List.mem_cons, forall_eq_or_imp] at within
    have tail := ih within.2
    by_cases separator : token.kind.isSeparator = true
    next =>
      have moved : (token.shift (Text.byteLength front)).kind.isSeparator = true := separator
      apply Alike.gap (.cons _ separator) (.cons _ moved)
      simpa [skip, separator, moved] using tail.skip
    next =>
      have plain : token.kind.isSeparator = false := by simpa using separator
      exact .word token.kind plain ⟨rfl, (within.1.slice_shift front back).symm⟩ tail

theorem Expr.Alike.eq_shift {expr other : Expr}
    (alike : Alike (.moved front source back) expr other) :
    other = expr.shift (Text.byteLength front) := by
  induction alike with
  | number spans value => rw [spans, shift]
  | identifier spans name => rw [spans, shift]
  | binary spans operator sameLeft sameRight ihLeft ihRight => rw [spans, ihLeft, ihRight, shift]
  | unaryCall spans builtin same ih => rw [spans, ih, shift]
  | binaryCall spans builtin sameFirst sameSecond ihFirst ihSecond =>
    rw [spans, ihFirst, ihSecond, shift]

theorem Statement.Alike.eq_shift {statement other : Statement}
    (alike : Alike (.moved front source back) statement other) :
    other = statement.shift (Text.byteLength front) := by
  cases alike with
  | define spans name same => rw [spans, same.eq_shift, shift]
  | expression spans same => rw [spans, same.eq_shift, shift]

theorem Statement.eq_map_shift {statements others : List Statement}
    (alike : List.Forall₂ (Alike (.moved front source back)) statements others) :
    others = statements.map (shift (Text.byteLength front)) := by
  induction alike with
  | nil => rfl
  | cons first rest ih => rw [List.map_cons, ← first.eq_shift, ← ih]

namespace Derivation

/-- A script of tokens in the source, from which the statements are read. -/
structure Script.Yields (source : List Char) (script : Script)
    (statements : List StackScript.Statement) : Prop where
  placed : Token.Placed source script.tokens
  shallow : script.nesting ≤ nestingLimit
  lowered : script.trees.mapM (Phrase.toStatement source nestingLimit) = .ok statements

theorem agree_moved {tokens others : List Token}
    (within : ∀ token ∈ tokens, token.span.Within source)
    (same : others = tokens.map (Token.shift (Text.byteLength front))) :
    Agree (List.Forall₂ (Phrase.Alike (.moved front source back)))
      (Reader.statementsUpTo 0 tokens.length tokens)
      (Reader.statementsUpTo 0 others.length others) := by
  subst same
  exact Reader.agree_statementsUpTo (Nat.le_refl _) (Nat.le_refl _) (Token.alike_moved within).skip

theorem Script.Yields.moved {whole : List Char} {distance : Nat}
    (split : whole = front ++ source ++ back) (far : distance = Text.byteLength front)
    {script : Script} {statements : List StackScript.Statement}
    (yields : script.Yields source statements)
    (placed : Token.Placed whole (script.tokens.map (Token.shift distance))) :
    ∃ other : Script, other.tokens = script.tokens.map (Token.shift distance) ∧
      other.Yields whole (statements.map (.shift distance)) := by
  subst split far
  obtain ⟨phrases, read, alike⟩ :=
    (agree_moved yields.placed.within rfl).exists_of_ok (script.read 0 yields.shallow)
  obtain ⟨other, same, rfl, shallow⟩ := Script.exists_of_read (Nat.le_refl _) read
  rw [← same] at placed
  have matched := Phrase.matched_all alike (script.legible yields.placed) (other.legible placed)
  obtain ⟨others, lowered, alikeStatements⟩ :=
    (Phrase.agree_toStatements nestingLimit matched).exists_of_ok yields.lowered
  rw [Statement.eq_map_shift alikeStatements] at lowered
  exact ⟨other, same, placed, shallow, lowered⟩

theorem Script.Yields.cut {script : Script} {part : List Token}
    {statements : List StackScript.Statement}
    (yields : script.Yields (front ++ source ++ back) statements)
    (same : script.tokens = part.map (Token.shift (Text.byteLength front)))
    (placed : Token.Placed source part) :
    ∃ other : Script, other.tokens = part ∧
      ∃ others, statements = others.map (.shift (Text.byteLength front)) ∧
        other.Yields source others := by
  obtain ⟨phrases, read, alike⟩ :=
    (agree_moved placed.within same).exists_of_other_ok (script.read 0 yields.shallow)
  obtain ⟨other, sameOther, rfl, shallow⟩ := Script.exists_of_read (Nat.le_refl _) read
  rw [← sameOther] at placed
  have matched := Phrase.matched_all alike (other.legible placed) (script.legible yields.placed)
  obtain ⟨others, lowered, alikeStatements⟩ :=
    (Phrase.agree_toStatements nestingLimit matched).exists_of_other_ok yields.lowered
  exact ⟨other, sameOther, others, Statement.eq_map_shift alikeStatements, placed, shallow, lowered⟩

theorem Script.Yields.before {script : Script} {statements : List StackScript.Statement}
    (yields : script.Yields source statements) (back : List Char)
    (placed : Token.Placed (source ++ back) script.tokens) :
    ∃ other : Script, other.tokens = script.tokens ∧ other.Yields (source ++ back) statements := by
  have tokens : script.tokens.map (Token.shift 0) = script.tokens := List.map_id _
  rw [← tokens] at placed ⊢
  rw [← List.map_id statements, ← Statement.shift_zero]
  have split : source ++ back = [] ++ source ++ back := rfl
  exact yields.moved split rfl placed

theorem Script.Yields.behindNewline {script : Script} {statements : List StackScript.Statement}
    (yields : script.Yields source statements) (front : List Char)
    (placed : Token.Placed (front ++ '\n' :: source)
      (script.tokens.map (Token.shift (Text.byteLength front + 1)))) :
    ∃ other : Script,
      other.tokens = script.tokens.map (Token.shift (Text.byteLength front + 1)) ∧
      other.Yields (front ++ '\n' :: source)
        (statements.map (.shift (Text.byteLength front + 1))) := by
  have split : front ++ '\n' :: source = (front ++ ['\n']) ++ source ++ [] := by simp
  have far : Text.byteLength front + 1 = Text.byteLength (front ++ ['\n']) := by
    rw [Text.byteLength_append]
    rfl
  exact yields.moved split far placed

end Derivation

end moved

namespace Token

theorem joinLines_map_shift (offset depth : Nat) (tokens : List Token) :
    joinLines depth (tokens.map (shift offset)) = (joinLines depth tokens).map (shift offset) := by
  fun_induction joinLines depth tokens with
  | case1 => rfl
  | _ => simp_all [joinLines, shift]

end Token

namespace Derivation

theorem Separators.ends_append (separators : Separators) {rest : List Token}
    (ends : Token.Ends rest) : Token.Ends (separators.tokens ++ rest) := by
  by_cases none : separators.tokens = []
  next => rwa [none]
  next => exact separators.ends_of_ne_nil none rest

theorem Lines.exists_append (lines : Lines) (script : Script)
    (shallow : lines.nesting ≤ nestingLimit) (shallowScript : script.nesting ≤ nestingLimit)
    (ends : Token.Ends script.tokens) :
    ∃ longer : Script, longer.tokens = lines.tokens ++ script.tokens ∧
      longer.trees = lines.trees ++ script.trees ∧ longer.nesting ≤ nestingLimit := by
  induction lines with
  | last statement after =>
    have endsAfter := after.ends_append ends
    rw [← Script.tokens_behind] at endsAfter
    obtain ⟨longer, same, trees, deep⟩ :=
      Script.exists_cons statement (script.behind after) shallow shallowScript endsAfter
    rw [Script.tokens_behind, ← List.append_assoc] at same
    exact ⟨longer, same, trees, deep⟩
  | next statement between apart rest ih =>
    obtain ⟨shallowFirst, shallowRest⟩ := Nat.max_le.mp shallow
    obtain ⟨others, sameOthers, treesOthers, deepOthers⟩ := ih shallowRest
    have endsBetween := between.ends_of_ne_nil apart others.tokens
    rw [← Script.tokens_behind] at endsBetween
    obtain ⟨longer, same, trees, deep⟩ :=
      Script.exists_cons statement (others.behind between) shallowFirst deepOthers endsBetween
    refine ⟨longer, ?_, ?_, deep⟩
    next => simp only [same, Script.tokens_behind, sameOthers, Lines.tokens, List.append_assoc]
    next =>
      rw [trees]
      exact congrArg (statement.tree :: ·) treesOthers

theorem Script.exists_append (script other : Script) {separator : Token}
    (separates : separator.kind.isSeparator = true) (shallow : script.nesting ≤ nestingLimit)
    (otherShallow : other.nesting ≤ nestingLimit) :
    ∃ longer : Script, longer.tokens = script.tokens ++ separator :: other.tokens ∧
      longer.trees = script.trees ++ other.trees ∧ longer.nesting ≤ nestingLimit := by
  let seam : Separators := ⟨[separator], by simpa using separates⟩
  obtain ⟨before, lines⟩ := script
  cases lines with
  | none =>
    refine ⟨(other.behind seam).behind before, ?_, rfl, otherShallow⟩
    rw [tokens_behind, tokens_behind]
    simp [tokens, seam]
  | some lines =>
    have ends : Token.Ends (other.behind seam).tokens := by
      rw [tokens_behind]
      exact .cons _ separates
    obtain ⟨longer, same, trees, deep⟩ :=
      lines.exists_append (other.behind seam) shallow otherShallow ends
    refine ⟨longer.behind before, ?_, trees, deep⟩
    rw [tokens_behind, same, tokens_behind, ← List.append_assoc]
    rfl

theorem Script.Yields.append {source : List Char} {script other : Script}
    {statements others : List StackScript.Statement} {separator : Token}
    (yields : script.Yields source statements) (otherYields : other.Yields source others)
    (separates : separator.kind.isSeparator = true)
    (placed : Token.Placed source (script.tokens ++ separator :: other.tokens)) :
    ∃ longer : Script, longer.tokens = script.tokens ++ separator :: other.tokens ∧
      longer.Yields source (statements ++ others) := by
  obtain ⟨longer, same, trees, shallow⟩ :=
    script.exists_append other separates yields.shallow otherYields.shallow
  refine ⟨longer, same, same ▸ placed, shallow, ?_⟩
  rw [trees, List.mapM_append, yields.lowered, otherYields.lowered]
  rfl

end Derivation

-- All parentheses of a script are closed at its end, so the newline behind it is kept.
theorem Token.joinLines_seam {tokens others : List Token} {script other : Derivation.Script}
    (same : script.tokens = joinLines 0 tokens) (otherSame : other.tokens = joinLines 0 others)
    (newline : Span) (offset : Nat) :
    joinLines 0 (tokens ++ ⟨.newline, newline⟩ :: others.map (shift offset)) =
      script.tokens ++ ⟨.newline, newline⟩ :: other.tokens.map (shift offset) := by
  rw [← joinLines_joinLines_append, ← same, script.joinLines_tokens, otherSame,
    ← joinLines_map_shift]
  rfl

namespace Program

theorem ne_nil_of_ofSource {source : List Char} {program : Program}
    (read : ofSource source = .ok program) : source ≠ [] := by
  rintro rfl
  simp [ofSource] at read

theorem ofSource_eq_ok {source : List Char} (nonempty : source ≠ []) {program : Program} :
    ofSource source = .ok program ↔ program.statements ≠ [] ∧
      ∃ tokens, Token.ofSource source = .ok tokens ∧
        ∃ script : Derivation.Script, script.tokens = Token.joinLines 0 tokens ∧
          script.Yields source program.statements := by
  rw [ofSource_eq nonempty]
  constructor
  next =>
    intro read
    obtain ⟨phrase, parsed, lowered⟩ := bind_eq_ok.mp read
    obtain ⟨tokens, scanned, accepted⟩ := bind_eq_ok.mp parsed
    obtain ⟨script, same, shallow, rfl⟩ := Phrase.ofTokens_eq_ok.mp accepted
    have scannedSource := mapError_eq_ok.mp scanned
    have placed := (Token.placed_of_ofSource scannedSource).sublist
      (Token.sublist_joinLines 0 tokens)
    rw [← same] at placed
    unfold Phrase.toProgram at lowered
    rw [if_neg (by simp [Derivation.Script.tree, Phrase.kind])] at lowered
    split at lowered
    next => cases lowered
    next some =>
      obtain ⟨statements, readAll, last⟩ := bind_eq_ok.mp lowered
      cases last
      exact ⟨ne_nil_of_mapM readAll (by simpa using some), tokens, scannedSource, script, same,
        placed, shallow, readAll⟩
  next =>
    rintro ⟨some, tokens, scanned, script, same, yields⟩
    have parsed : Phrase.ofSource source = .ok (script.tree (Text.byteLength source)) := by
      rw [Phrase.ofSource, scanned]
      exact Phrase.ofTokens_eq_ok.mpr ⟨script, same, yields.shallow, rfl⟩
    have trees : ¬ script.trees.isEmpty = true := by
      intro none
      have lowered := yields.lowered
      rw [List.isEmpty_iff.mp none, List.mapM_nil, pure_eq_ok, Except.ok.injEq] at lowered
      exact some lowered.symm
    rw [parsed, ok_bind, Phrase.toProgram,
      if_neg (by simp [Derivation.Script.tree, Phrase.kind])]
    change (if script.trees.isEmpty = true then _ else
      script.trees.mapM (Phrase.toStatement source nestingLimit) >>= _) = _
    rw [if_neg trees, yields.lowered]
    rfl

theorem ofSource_append_newline {source other : List Char} {program next : Program}
    (read : ofSource source = .ok program) (readNext : ofSource other = .ok next) :
    ofSource (source ++ '\n' :: other) =
      .ok ⟨program.statements ++
        next.statements.map (Statement.shift (Text.byteLength source + 1))⟩ := by
  obtain ⟨some, tokens, scanned, script, same, yields⟩ :=
    (ofSource_eq_ok (ne_nil_of_ofSource read)).mp read
  obtain ⟨-, others, otherScanned, otherScript, otherSame, otherYields⟩ :=
    (ofSource_eq_ok (ne_nil_of_ofSource readNext)).mp readNext
  have scannedBoth := Token.ofSource_seam scanned otherScanned
  have joined := Token.joinLines_seam same otherSame
    ⟨Text.byteLength source, Text.byteLength source + 1⟩ (Text.byteLength source + 1)
  have placed := (Token.placed_of_ofSource scannedBoth).sublist (Token.sublist_joinLines 0 _)
  rw [joined] at placed
  obtain ⟨first, sameFirst, yieldsFirst⟩ := yields.before ('\n' :: other)
    (placed.sublist (List.sublist_append_left ..))
  obtain ⟨second, sameSecond, yieldsSecond⟩ := otherYields.behindNewline source
    (placed.sublist ((List.sublist_cons_self ..).trans (List.sublist_append_right ..)))
  rw [← sameFirst, ← sameSecond] at joined placed
  obtain ⟨both, sameBoth, yieldsBoth⟩ := yieldsFirst.append yieldsSecond rfl placed
  apply (ofSource_eq_ok (by simp)).mpr
  exact ⟨by simp [some], _, scannedBoth, both, sameBoth.trans joined.symm, yieldsBoth⟩

def openComment : List Char :=
  "x = max(1,\n 2) # é".toList

def lateCall : List Char :=
  "; print(x)".toList

theorem ofSource_append_newline_of_calls :
    let call : Program := ⟨[.define ⟨0, 14⟩ "x"
      (.binaryCall ⟨4, 14⟩ .max (.number ⟨8, 9⟩ 1) (.number ⟨12, 13⟩ 2))]⟩
    let print : Program := ⟨[.expression ⟨2, 10⟩
      (.unaryCall ⟨2, 10⟩ .print (.identifier ⟨8, 9⟩ "x"))]⟩
    ofSource openComment = .ok call ∧ ofSource lateCall = .ok print ∧
      ofSource (openComment ++ '\n' :: lateCall) =
        .ok ⟨call.statements ++
          print.statements.map (Statement.shift (Text.byteLength openComment + 1))⟩ := by
  intro call print
  have read : (ofSource openComment).toOption = some call := by decide +kernel
  have readNext : (ofSource lateCall).toOption = some print := by decide +kernel
  exact ⟨eq_ok_of_toOption read, eq_ok_of_toOption readNext,
    ofSource_append_newline (eq_ok_of_toOption read) (eq_ok_of_toOption readNext)⟩

end Program

end StackScript
