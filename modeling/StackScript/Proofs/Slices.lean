import StackScript.Proofs.Concatenation
import StackScript.Proofs.LongestMatch
import StackScript.Proofs.Subexpressions

set_option autoImplicit false

namespace StackScript

theorem Span.Within.eq_of_shift {source : List Char} {span inner : Span}
    (within : span.Within source) (same : inner.shift span.start = span) :
    inner = ⟨0, Text.byteLength (span.slice source)⟩ := by
  obtain ⟨before, text, after, rfl, -, rfl⟩ := within
  obtain ⟨start, stop⟩ := inner
  rw [slice_append]
  simp only [shift, mk.injEq] at same ⊢
  omega

theorem newline_mem_of_lineEnd {text : List Char} (ends : text ∈ lineEnd) : '\n' ∈ text := by
  obtain ⟨front, -, last, newline, rfl⟩ := Language.mem_mul.mp ends
  obtain ⟨character, single, rfl⟩ := newline
  rw [List.mem_singleton.mp single]
  exact List.mem_append_right _ List.mem_cons_self

namespace Token

theorem Scans.behind {offset : Nat} {text : List Char} {tokens front rest : List Token}
    {token : Token} (scans : Scans offset text tokens) (same : tokens = front ++ token :: rest) :
    ∃ before after, text = before ++ after ∧ token.span.start = offset + Text.byteLength before ∧
      Scans (offset + Text.byteLength before) after (token :: rest) := by
  induction scans generalizing front with
  | nil offset => simp at same
  | @step offset piece others pattern tokens nonempty longest later ih =>
    have further {front : List Token} (same : tokens = front ++ token :: rest) :
        ∃ before after, piece ++ others = before ++ after ∧
          token.span.start = offset + Text.byteLength before ∧
          Scans (offset + Text.byteLength before) after (token :: rest) := by
      obtain ⟨before, after, rfl, start, scans⟩ := ih same
      refine ⟨piece ++ before, after, by simp, ?_, ?_⟩
      next => rw [start, Text.byteLength_append, Nat.add_assoc]
      next => rwa [Text.byteLength_append, ← Nat.add_assoc]
    cases pattern with
    | token kind =>
      cases front with
      | nil =>
        obtain ⟨rfl, rfl⟩ := List.cons.inj same
        exact ⟨[], piece ++ others, rfl, rfl, .step nonempty longest later⟩
      | cons first front => exact further (List.cons.inj same).2
    | _ => exact further same

theorem Scans.upTo {offset : Nat} {text : List Char} {tokens front rest : List Token}
    {token : Token} (scans : Scans offset text tokens) (same : tokens = front ++ token :: rest) :
    ∃ before after, text = before ++ after ∧ token.span.stop = offset + Text.byteLength before ∧
      Scans offset before (front ++ [token]) := by
  induction scans generalizing front with
  | nil offset => simp at same
  | @step offset piece others pattern tokens nonempty longest later ih =>
    have further {front : List Token} (same : tokens = front ++ token :: rest) :
        ∃ before after, piece ++ others = before ++ after ∧
          token.span.stop = offset + Text.byteLength before ∧
          Scans offset before (pattern.tokens ⟨offset, offset + Text.byteLength piece⟩ ++
            (front ++ [token])) := by
      obtain ⟨before, after, rfl, stop, scans⟩ := ih same
      refine ⟨piece ++ before, after, by simp, ?_,
        .step nonempty (Pattern.longest_cut longest) scans⟩
      rw [stop, Text.byteLength_append, Nat.add_assoc]
    cases pattern with
    | token kind =>
      cases front with
      | nil =>
        obtain ⟨rfl, rfl⟩ := List.cons.inj same
        have alone : Pattern.longest (piece ++ []) = some (.token kind, piece.length) :=
          Pattern.longest_cut longest
        have scans : Scans offset (piece ++ [])
            [⟨kind, ⟨offset, offset + Text.byteLength piece⟩⟩] :=
          .step nonempty alone (.nil _)
        rw [List.append_nil] at scans
        exact ⟨piece, others, rfl, rfl, scans⟩
      | cons first front =>
        obtain ⟨rfl, rest⟩ := List.cons.inj same
        exact further rest
    | _ => exact further same

theorem Scans.unshift {distance start : Nat} {text : List Char} {tokens : List Token}
    (scans : Scans start text tokens) {offset : Nat} (same : start = offset + distance) :
    ∃ others, tokens = others.map (Token.shift distance) ∧ Scans offset text others := by
  induction scans generalizing offset with
  | nil => exact ⟨[], rfl, .nil _⟩
  | @step start piece rest pattern tokens nonempty longest later ih =>
    subst same
    obtain ⟨others, rfl, scans⟩ := ih (Nat.add_right_comm ..)
    refine ⟨_, ?_, .step nonempty longest scans⟩
    rw [List.map_append, ← Pattern.tokens_shift, Span.shift, Nat.add_right_comm offset]

theorem Scans.ne_nil {offset : Nat} {text : List Char} {tokens : List Token}
    (scans : Scans offset text tokens) (nonempty : tokens ≠ []) : text ≠ [] := by
  cases scans with
  | nil => exact absurd rfl nonempty
  | step nonemptyPiece => simp [nonemptyPiece]

theorem Scans.cut {source : List Char} {front part back : List Token}
    (scans : Scans 0 source (front ++ (part ++ back))) (nonempty : part ≠ []) :
    ∃ before text after others, source = before ++ text ++ after ∧ text ≠ [] ∧
      cover part = ⟨Text.byteLength before, Text.byteLength before + Text.byteLength text⟩ ∧
      part = others.map (Token.shift (Text.byteLength before)) ∧ Scans 0 text others := by
  obtain ⟨first, rest, rfl⟩ := List.exists_cons_of_ne_nil nonempty
  obtain ⟨before, later, rfl, start, scansBehind⟩ := scans.behind rfl
  obtain ⟨init, last, same⟩ : ∃ init last, first :: rest = init ++ [last] :=
    ⟨_, _, (List.dropLast_append_getLast nonempty).symm⟩
  have ending : first :: rest ++ back = init ++ last :: back := by simp [same]
  obtain ⟨text, after, rfl, stop, scansPart⟩ := scansBehind.upTo ending
  rw [Nat.zero_add] at start stop scansPart
  obtain ⟨others, sameOthers, scansText⟩ :=
    scansPart.unshift (Nat.zero_add (Text.byteLength before)).symm
  have nonemptyText : text ≠ [] := scansPart.ne_nil (by simp)
  refine ⟨before, text, after, others, by simp, nonemptyText, ?_, same.trans sameOthers, scansText⟩
  have lasts : (first :: rest).getLast? = some last := by simp [same]
  simp [cover, lasts, start, stop]

theorem Scans.within_cover {source : List Char} {front part back : List Token}
    (scans : Scans 0 source (front ++ (part ++ back))) (nonempty : part ≠ []) :
    (cover part).Within source := by
  obtain ⟨before, text, after, -, same, nonemptyText, covered, -, -⟩ := scans.cut nonempty
  exact ⟨before, text, after, same, nonemptyText, covered⟩

theorem Scans.newline_mem {offset : Nat} {text : List Char} {tokens : List Token} {token : Token}
    (scans : Scans offset text tokens) (member : token ∈ tokens) (newline : token.kind = .newline) :
    '\n' ∈ text := by
  induction scans with
  | nil => simp at member
  | @step offset piece rest pattern tokens nonempty longest later ih =>
    rcases List.mem_append.mp member with here | behind
    next =>
      cases pattern with
      | token kind =>
        cases List.mem_singleton.mp here
        obtain rfl : kind = .newline := newline
        have ends : piece ∈ lineEnd := Pattern.mem_language_of_longest longest
        exact List.mem_append_left _ (newline_mem_of_lineEnd ends)
      | _ => simp [Pattern.tokens] at here
    next => exact List.mem_append_right _ (ih behind)

/-- Tokens that follow each other once lines are joined come from consecutive tokens, from the first
of them to the last. -/
theorem exists_of_joinLines_append {depth : Nat} {tokens front part back : List Token}
    (nonempty : part ≠ []) (same : joinLines depth tokens = front ++ (part ++ back)) :
    ∃ before raw after inner, tokens = before ++ (raw ++ after) ∧
      cover raw = cover part ∧ joinLines inner raw = part ∧
      ∀ others, joinLines depth (before ++ others) = front ++ joinLines inner others := by
  obtain ⟨first, rest, rfl⟩ := List.exists_cons_of_ne_nil nonempty
  obtain ⟨before, later, inner, next, rfl, split, -⟩ := exists_of_joinLines same
  rw [split, List.append_cancel_left_eq] at same
  obtain ⟨init, last, sameLast⟩ : ∃ init last, first :: rest = init ++ [last] :=
    ⟨_, _, (List.dropLast_append_getLast nonempty).symm⟩
  have ending : joinLines inner (first :: later) = init ++ last :: back := by
    rw [same, sameLast, List.append_assoc]
    rfl
  obtain ⟨raw, after, deeper, further, sameRaw, splitRaw, keeps⟩ := exists_of_joinLines ending
  refine ⟨before, raw ++ [last], after, inner, ?_, ?_, ?_, split⟩
  next => simp [sameRaw]
  next =>
    have heads : (raw ++ [last]).head? = some first := by
      cases raw with
      | nil =>
        obtain ⟨rfl, -⟩ := List.cons.inj sameRaw
        rfl
      | cons head tail =>
        obtain ⟨rfl, -⟩ := List.cons.inj sameRaw
        rfl
    have lasts : (first :: rest).getLast? = some last := by simp [sameLast]
    simp [cover, heads, lasts]
  next =>
    rw [splitRaw, keeps, sameLast]
    rfl

theorem Scans.ne_newline {source : List Char} {front part back : List Token}
    (scans : Scans 0 source (front ++ (part ++ back))) (plain : '\n' ∉ (cover part).slice source) :
    ∀ token ∈ part, token.kind ≠ .newline := by
  intro token member newline
  obtain ⟨before, text, after, others, rfl, -, covered, rfl, scansText⟩ :=
    scans.cut (List.ne_nil_of_mem member)
  rw [covered, Span.slice_append] at plain
  obtain ⟨other, inside, rfl⟩ := List.mem_map.mp member
  exact plain (scansText.newline_mem inside newline)

end Token

namespace Derivation

theorem Statement.tokens_ne_nil (statement : Statement) : statement.tokens ≠ [] := by
  obtain ⟨token, rest, same, -⟩ := statement.exists_head
  simp [same]

theorem Statement.ofSource_cover {source : List Char} {before raw after : List Token}
    (scans : Token.Scans 0 source (before ++ (raw ++ after))) {derivation : Statement}
    (same : derivation.tokens = Token.joinLines 0 raw)
    (shallow : derivation.nesting ≤ nestingLimit) {statement : StackScript.Statement}
    (read : derivation.tree.toStatement source nestingLimit = .ok statement) :
    ∃ alone : StackScript.Statement, alone.shift (Token.cover raw).start = statement ∧
      Program.ofSource ((Token.cover raw).slice source) = .ok ⟨[alone]⟩ := by
  have nonempty : raw ≠ [] := by
    rintro rfl
    exact derivation.tokens_ne_nil same
  have placed : Token.Placed source derivation.tokens := by
    have placedAll := Token.placed_of_ofSource (Token.ofSource_eq_ok.mpr scans)
    rw [same]
    exact placedAll.middle.sublist (Token.sublist_joinLines 0 raw)
  obtain ⟨front, text, back, others, rfl, nonemptyText, covered, rfl, scansText⟩ :=
    scans.cut nonempty
  have scannedText := Token.ofSource_eq_ok.mpr scansText
  have placedText := (Token.placed_of_ofSource scannedText).sublist
    (Token.sublist_joinLines 0 others)
  have yields : (Script.single derivation).Yields (front ++ text ++ back) [statement] := by
    refine ⟨?_, shallow, ?_⟩
    next => rwa [Script.tokens_single]
    next =>
      change [derivation.tree].mapM _ = _
      rw [List.mapM_cons, read]
      rfl
  rw [← Script.tokens_single, Token.joinLines_map_shift] at same
  obtain ⟨script, sameScript, statements, moved, yieldsText⟩ := yields.cut same placedText
  obtain ⟨alone, rfl, shifted⟩ := List.map_eq_singleton_iff.mp moved.symm
  refine ⟨alone, by rw [covered, shifted], ?_⟩
  rw [covered, Span.slice_append]
  exact (Program.ofSource_eq_ok nonemptyText).mpr
    ⟨by simp, others, scannedText, script, sameScript, yieldsText⟩

theorem Script.Yields.exists_split {source : List Char} {script : Script}
    {statements : List StackScript.Statement} (yields : script.Yields source statements)
    {statement : StackScript.Statement} (member : statement ∈ statements) :
    ∃ before after, ∃ derivation : Statement,
      script.tokens = before ++ (derivation.tokens ++ after) ∧
      derivation.nesting ≤ nestingLimit ∧
      derivation.tree.toStatement source nestingLimit = .ok statement ∧
      ∀ rest, Token.joinLines 0 (before ++ rest) = before ++ Token.joinLines 0 rest := by
  obtain ⟨phrase, inside, read⟩ := exists_of_mem_mapM yields.lowered member
  obtain ⟨before, after, derivation, same, rfl, shallow, joins⟩ := Script.exists_split inside
  exact ⟨before, after, derivation, same, Nat.le_trans shallow yields.shallow, read, joins⟩

variable {source : List Char} {tokens : List Token} {script : Script}
  {statements : List StackScript.Statement} {statement : StackScript.Statement}

theorem Script.Yields.ofSource_statement (scans : Token.Scans 0 source tokens)
    (same : script.tokens = Token.joinLines 0 tokens) (yields : script.Yields source statements)
    (member : statement ∈ statements) :
    ∃ alone : StackScript.Statement, alone.shift statement.span.start = statement ∧
      Program.ofSource (statement.span.slice source) = .ok ⟨[alone]⟩ := by
  obtain ⟨before, after, derivation, split, shallow, read, joins⟩ := yields.exists_split member
  have placed : Token.Placed source derivation.tokens := (split ▸ yields.placed).middle
  rw [split] at same
  obtain ⟨front, raw, back, inner, rfl, covers, joined, splits⟩ :=
    Token.exists_of_joinLines_append derivation.tokens_ne_nil same.symm
  -- All parentheses are closed before a statement, so its own lines are joined from depth zero.
  have alone : derivation.tokens = Token.joinLines 0 raw := by
    have outside : Token.joinLines 0 front = before := by
      simpa [Token.joinLines] using splits []
    have whole := splits raw
    rw [← Token.joinLines_joinLines_append, outside, joins, joined] at whole
    exact (List.append_cancel_left whole).symm
  have span : statement.span = Token.cover raw := by
    rw [Phrase.span_of_toStatement read, (derivation.laid placed).span, covers]
  rw [span]
  exact Statement.ofSource_cover scans alone shallow read

theorem Script.Yields.ofSource_expression (scans : Token.Scans 0 source tokens)
    (same : script.tokens = Token.joinLines 0 tokens) (yields : script.Yields source statements)
    (member : statement ∈ statements) :
    statement.value.Every fun expr => '\n' ∉ expr.span.slice source → ∃ alone : Expr,
      alone.shift expr.span.start = expr ∧ Program.ofSource (expr.span.slice source) =
        .ok ⟨[.expression ⟨0, Text.byteLength (expr.span.slice source)⟩ alone]⟩ := by
  obtain ⟨before, after, derivation, split, shallow, read, -⟩ := yields.exists_split member
  apply (Statement.every_derived shallow read).imp
  rintro expr ⟨own, ⟨left, right, part⟩, deep, readExpr⟩ plain
  have whole : script.tokens = (before ++ left) ++ (own.tokens ++ (right ++ after)) := by
    simp [split, ← part]
  have placed : Token.Placed source own.tokens := (whole ▸ yields.placed).middle
  rw [whole] at same
  obtain ⟨front, raw, back, inner, rfl, covers, joined, -⟩ :=
    Token.exists_of_joinLines_append own.tokens_ne_nil same.symm
  have span : expr.span = Token.cover raw := by
    have laid : Phrase.Laid source own.tokens own.tree := own.lays placed
    rw [Phrase.span_of_toExpr readExpr, laid.span, covers]
  rw [span] at plain ⊢
  -- No line ends under the span, so no newline is left out between the tokens.
  have kept := Token.joinLines_eq_self (scans.ne_newline plain)
  obtain rfl : own.tokens = raw := joined.symm.trans (kept inner)
  have readAlone : (Statement.expression own).tree.toStatement source nestingLimit =
      .ok (.expression (Statement.expression own).tree.span expr) := by
    simp only [Statement.tree, Phrase.toStatement, Phrase.kind_wrap, Phrase.children_wrap, readExpr]
    rfl
  have laidAlone := (Statement.expression own).laid placed
  have joinedAlone : (Statement.expression own).tokens = Token.joinLines 0 own.tokens :=
    (kept 0).symm
  obtain ⟨found, shifted, readSlice⟩ :=
    Statement.ofSource_cover scans joinedAlone deep readAlone
  cases found with
  | define => cases shifted
  | expression inside value =>
    injection shifted with sameSpan sameValue
    rw [laidAlone.span] at sameSpan
    obtain rfl := (scans.within_cover own.tokens_ne_nil).eq_of_shift sameSpan
    exact ⟨value, sameValue, readSlice⟩

end Derivation

namespace Program

/-- Spans are exact: the text under the span of a statement, or of an expression on one line, is a
source of it alone. -/
theorem ofSource_slice {source : List Char} {program : Program}
    (read : ofSource source = .ok program) :
    (∀ statement ∈ program.statements, ∃ alone : Statement,
      alone.shift statement.span.start = statement ∧
        ofSource (statement.span.slice source) = .ok ⟨[alone]⟩) ∧
    program.Every fun expr => '\n' ∉ expr.span.slice source → ∃ alone : Expr,
      alone.shift expr.span.start = expr ∧
        ofSource (expr.span.slice source) =
          .ok ⟨[.expression ⟨0, Text.byteLength (expr.span.slice source)⟩ alone]⟩ := by
  obtain ⟨-, tokens, scanned, script, same, yields⟩ :=
    (ofSource_eq_ok (ne_nil_of_ofSource read)).mp read
  have scans := Token.ofSource_eq_ok.mp scanned
  constructor
  next => exact fun statement member => yields.ofSource_statement scans same member
  next => exact fun statement member => yields.ofSource_expression scans same member

def brokenCall : List Char :=
  "# é\nx = pow(abs(-3) + 1, # é\n 2)".toList

theorem ofSource_slice_of_brokenCall :
    let sum : Expr := .binary ⟨13, 24⟩ .add
      (.unaryCall ⟨13, 20⟩ .abs (.number ⟨17, 19⟩ (-3))) (.number ⟨23, 24⟩ 1)
    let call : Statement := .define ⟨5, 34⟩ "x" (.binaryCall ⟨9, 34⟩ .pow sum (.number ⟨32, 33⟩ 2))
    ofSource brokenCall = .ok ⟨[call]⟩ ∧
      (∃ alone : Statement, alone.shift 5 = call ∧
        ofSource (call.span.slice brokenCall) = .ok ⟨[alone]⟩) ∧
      ∃ alone : Expr, alone.shift 13 = sum ∧
        ofSource (sum.span.slice brokenCall) =
          .ok ⟨[.expression ⟨0, Text.byteLength (sum.span.slice brokenCall)⟩ alone]⟩ := by
  intro sum call
  have read : (ofSource brokenCall).toOption = some ⟨[call]⟩ := by decide +kernel
  have slices := ofSource_slice (eq_ok_of_toOption read)
  have plain : '\n' ∉ sum.span.slice brokenCall := by decide +kernel
  exact ⟨eq_ok_of_toOption read, slices.1 call List.mem_cons_self,
    (slices.2 call List.mem_cons_self).2.1.1 plain⟩

end Program

end StackScript
