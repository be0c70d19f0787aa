import StackScript.Proofs.Joining
import StackScript.Proofs.Viability

set_option autoImplicit false

namespace StackScript

open StackScript.Derivation

namespace Reader

theorem exists_again {size : Nat} {tokens behind : List Token} {token : Token} {phrase : Phrase}
    (success : statement size tokens = .ok (phrase, token :: behind)) :
    ∃ read : Derivation.Statement, read.tokens ++ token :: behind = tokens ∧
      read.nesting ≤ nestingLimit ∧
      ∀ rest, statement size (read.tokens ++ token :: rest) = .ok (read.tree, token :: rest) := by
  have reads := (reads_level size nestingLimit).1
  have points := (points_level size nestingLimit).1
  unfold statement at success
  split at success
  next word behind =>
    cases success
    exact ⟨.pass word, rfl, Nat.zero_le _, fun _ => rfl⟩
  next name sign behind =>
    obtain ⟨⟨found, final⟩, readValue, last⟩ := bind_eq_ok.mp success
    cases last
    obtain ⟨value, rfl, rfl, shallow⟩ := reads.sound readValue
    refine ⟨.assign name sign value, rfl, shallow, fun rest => ?_⟩
    have again := reads.complete value (token :: rest) shallow (.cons (points.stops readValue).head)
    rw [Statement.tokens, List.cons_append, List.cons_append, statement, expression, again]
    rfl
  next impossible unassigned =>
    obtain ⟨⟨found, final⟩, readValue, last⟩ := bind_eq_ok.mp success
    cases last
    obtain ⟨value, same, rfl, shallow⟩ := reads.sound readValue
    refine ⟨.expression value, same, shallow, fun rest => ?_⟩
    have stops : Form.expression.Stops (token :: rest) := .cons (points.stops readValue).head
    have again := reads.complete value (token :: rest) shallow stops
    rw [Statement.tokens, statement.eq_3, expression, again]
    next => rfl
    next => exact fun _ _ => value.ne_pass
    next =>
      -- The token would be `=`, and before it would stand a name alone.
      intro name sign others assigned
      obtain ⟨rfl, rfl⟩ := List.cons.inj (value.eq_of_assignment stops assigned)
      have split : value.tokens ++ ⟨.symbol .assign, sign⟩ :: rest =
          [⟨.name, name⟩] ++ ⟨.symbol .assign, sign⟩ :: rest := assigned
      rw [List.append_cancel_right split] at same
      exact unassigned name sign behind same.symm

theorem blames_statement {size : Nat} {tokens : List Token} {error : CompileError}
    (failure : statement size tokens = .error error) :
    Blames size
      (fun part => ∃ begun : Derivation.Statement, begun.nesting ≤ nestingLimit ∧
        part <+: begun.tokens)
      (Fails (statement size)) tokens error := by
  have reads := (reads_level size nestingLimit).1
  have points := (points_level size nestingLimit).1
  unfold statement at failure
  split at failure
  next => cases failure
  next name sign behind =>
    rcases bind_eq_error.mp failure with value | ⟨found, -, impossible⟩
    next =>
      refine (points.blames value).behind [⟨.name, name⟩, ⟨.symbol .assign, sign⟩] ?_ ?_
      next =>
        rintro part - ⟨value, shallow, begins⟩
        exact ⟨.assign name sign value, shallow,
          (List.prefix_cons_inj _).mpr ((List.prefix_cons_inj _).mpr begins)⟩
      next =>
        rintro rest - ⟨problem, fails⟩
        refine ⟨problem, ?_⟩
        rw [List.cons_append, List.singleton_append, statement, expression, fails, error_bind]
    next => cases impossible
  next impassable unassigned =>
    rcases bind_eq_error.mp failure with value | ⟨found, -, impossible⟩
    next =>
      refine (points.blames value).behind [] ?_ ?_
      next =>
        rintro part - ⟨value, shallow, begins⟩
        exact ⟨.expression value, shallow, begins⟩
      next =>
        rintro rest head ⟨problem, fails⟩
        refine ⟨problem, ?_⟩
        rw [List.nil_append, statement.eq_3, expression, fails, error_bind]
        next => exact fun word => ne_cons_of_head (impassable word) head
        next =>
          rintro name sign others rfl
          let target : Derivation (.form .expression) :=
            .ofAtom (.leaf ⟨.name, name⟩ .variableName rfl)
          have shallow : target.nesting < nestingLimit := by
            change 0 < nestingLimit
            decide
          have read := reads.complete target (⟨.symbol .assign, sign⟩ :: others) shallow
            (.cons rfl)
          rw [Derivation.tokens_ofAtom] at read
          cases fails.symm.trans read
    next => cases impossible

theorem exists_statementsUpTo_again {size bound : Nat} {first : Derivation.Statement}
    {token : Token} {rest : List Token} (enough : (first.tokens ++ token :: rest).length ≤ bound)
    (read : statement size (first.tokens ++ token :: rest) = .ok (first.tree, token :: rest)) :
    ∃ fewer, (token :: rest).length ≤ fewer ∧
      statementsUpTo size bound (first.tokens ++ token :: rest) =
        if token.kind.isSeparator then
          statementsUpTo size fewer (token :: rest) >>= fun phrases => .ok (first.tree :: phrases)
        else .error (unexpected size .statementEnd (token :: rest)) := by
  obtain ⟨head, inside, same, plain⟩ := first.exists_head
  rw [same, List.cons_append] at read enough ⊢
  obtain ⟨fewer, rfl⟩ := Nat.exists_eq_add_one_of_ne_zero (Nat.ne_zero_of_lt enough)
  rw [List.length_cons, List.length_append] at enough
  refine ⟨fewer, by omega, ?_⟩
  rw [statementsUpTo, if_neg (by simp [plain]), read]
  rfl

def ScriptViable (part : List Token) : Prop :=
  ∃ script : Derivation.Script, script.nesting ≤ nestingLimit ∧ part <+: script.tokens

theorem scriptViable_of_statement {first : Derivation.Statement} {part : List Token}
    (shallow : first.nesting ≤ nestingLimit) (begins : part <+: first.tokens) :
    ScriptViable part :=
  ⟨.single first, shallow, by rwa [Script.tokens_single]⟩

theorem scriptViable_behind {first : Derivation.Statement} {script : Derivation.Script}
    {tokens part : List Token} (shallow : first.nesting ≤ nestingLimit) (ends : Token.Ends tokens)
    (inside : part <+: tokens) (shallowScript : script.nesting ≤ nestingLimit)
    (begins : part <+: script.tokens) : ScriptViable (first.tokens ++ part) := by
  cases part with
  | nil =>
    rw [List.append_nil]
    exact scriptViable_of_statement shallow (List.prefix_refl _)
  | cons token others =>
    obtain ⟨rest, rfl⟩ := inside
    obtain ⟨behind, same⟩ := begins
    have endsScript : Token.Ends script.tokens := by
      rw [← same]
      exact .cons _ ends.head
    obtain ⟨longer, longerSame, -, deep⟩ :=
      Script.exists_cons first script shallow shallowScript endsScript
    refine ⟨longer, deep, behind, ?_⟩
    rw [longerSame, ← same, List.append_assoc]

theorem blames_statementsUpTo {size bound : Nat} {tokens : List Token} {error : CompileError}
    (enough : tokens.length ≤ bound) (failure : statementsUpTo size bound tokens = .error error) :
    Blames size ScriptViable
      (fun tokens => ∀ bound, tokens.length ≤ bound → Fails (statementsUpTo size bound) tokens)
      tokens error := by
  fun_induction statementsUpTo size bound tokens with
  | case1 bound token rest separator ih =>
    refine (ih (Nat.le_of_succ_le_succ enough) failure).behind [token] ?_ ?_
    next =>
      rintro part - ⟨script, shallow, begins⟩
      refine ⟨script.behind ⟨[token], by simpa using separator⟩, shallow, ?_⟩
      rw [Script.tokens_behind]
      exact (List.prefix_cons_inj _).mpr begins
    next =>
      rintro rest - fails bound enough
      obtain ⟨bound, rfl⟩ := Nat.exists_eq_add_one_of_ne_zero (Nat.ne_zero_of_lt enough)
      obtain ⟨problem, fails⟩ := fails bound (Nat.le_of_succ_le_succ enough)
      exact ⟨problem, by rw [List.singleton_append, statementsUpTo, if_pos separator, fails]⟩
  | case2 bound token rest plain ih =>
    rcases bind_eq_error.mp failure with first | ⟨⟨phrase, after⟩, read, later⟩
    next =>
      refine (blames_statement first).behind [] ?_ ?_
      next =>
        rintro part - ⟨begun, shallow, begins⟩
        exact scriptViable_of_statement shallow begins
      next =>
        rintro others head ⟨problem, fails⟩ bound enough
        obtain ⟨behind, rfl⟩ := List.head?_eq_some_iff.mp head
        obtain ⟨bound, rfl⟩ := Nat.exists_eq_add_one_of_ne_zero (Nat.ne_zero_of_lt enough)
        exact ⟨problem, by rw [List.nil_append, statementsUpTo, if_neg plain, fails, error_bind]⟩
    next =>
      dsimp only at later
      split at later
      next => cases later
      next next behind =>
        obtain ⟨first, same, shallow, again⟩ := exists_again read
        rw [← same]
        split at later
        next separator =>
          rcases bind_eq_error.mp later with more | ⟨found, -, impossible⟩
          next =>
            have fewer : (next :: behind).length ≤ bound :=
              Nat.le_of_lt_succ (Nat.lt_of_lt_of_le (Statement.length_lt_of_read read) enough)
            refine (ih next behind fewer more).behind first.tokens ?_ ?_
            next =>
              rintro part inside ⟨script, shallowScript, begins⟩
              exact scriptViable_behind shallow (.cons behind separator) inside shallowScript begins
            next =>
              rintro others head fails bound enough
              obtain ⟨rest, rfl⟩ := List.head?_eq_some_iff.mp head
              obtain ⟨fewer, enough, unread⟩ := exists_statementsUpTo_again enough (again rest)
              obtain ⟨problem, fails⟩ := fails fewer enough
              exact ⟨problem, by rw [unread, if_pos separator, fails, error_bind]⟩
          next => cases impossible
        next unseparated =>
          cases later
          refine .stuck first.tokens .statementEnd
            (scriptViable_of_statement shallow (List.prefix_refl _)) ?_
          rintro token behind same other bound enough
          cases same
          obtain ⟨fewer, -, unread⟩ := exists_statementsUpTo_again enough (again other)
          exact ⟨_, by rw [unread, if_neg unseparated]⟩
  | case3 => cases failure

end Reader

namespace Phrase

theorem exists_of_ofTokens_error {size : Nat} {tokens : List Token} {error : CompileError}
    (failure : ofTokens size tokens = .error error)
    (shallow : ∀ span, error ≠ .fault .nestingTooDeep span) :
    ∃ front rest expected, Token.joinLines 0 tokens = front ++ rest ∧
      error = Reader.unexpected size expected rest ∧ Reader.ScriptViable front ∧
      ∀ token behind, rest = token :: behind → ∀ other bound,
        (front ++ token :: other).length ≤ bound →
        Reader.Fails (Reader.statementsUpTo size bound) (front ++ token :: other) := by
  rcases bind_eq_error.mp failure with unread | ⟨phrases, -, impossible⟩
  next =>
    have blames := Reader.blames_statementsUpTo (Nat.le_refl _) unread
    generalize Token.joinLines 0 tokens = joined at blames
    cases blames with
    | tooDeep tokens span => exact absurd rfl (shallow span)
    | stuck front expected begins ends => exact ⟨front, _, expected, rfl, rfl, begins, ends⟩
  next => cases impossible

theorem ofTokens_ne_ok {size : Nat} {tokens : List Token}
    (fails : Reader.Fails (ofTokens size) tokens) (length : Nat) (phrase : Phrase) :
    ofTokens length tokens ≠ .ok phrase := by
  intro success
  obtain ⟨script, same, shallow, -⟩ := ofTokens_eq_ok.mp success
  obtain ⟨error, failure⟩ := fails
  cases failure.symm.trans (ofTokens_eq_ok.mpr ⟨script, same, shallow, rfl⟩)

theorem exists_accepted {tokens : List Token}
    (viable : Reader.ScriptViable (Token.joinLines 0 tokens)) :
    ∃ rest, ∀ size, ∃ phrase, ofTokens size (tokens ++ rest) = .ok phrase := by
  obtain ⟨script, shallow, rest, same⟩ := viable
  refine ⟨rest, fun size => ⟨script.tree size, ofTokens_eq_ok.mpr ⟨script, ?_, shallow, rfl⟩⟩⟩
  have whole := script.joinLines_tokens []
  rw [List.append_nil] at whole
  rw [← Token.joinLines_joinLines_append, same, whole]
  exact (List.append_nil _).symm

/-- Reading fails at the first token with which no script begins any more, and at the end of the
tokens if they begin a script but are none. -/
theorem ofTokens_fails_at_first_hopeless (size : Nat) (tokens : List Token) :
    (∀ kind expected span,
      ofTokens size tokens = .error (.fault (.unexpectedToken kind expected) span) →
      ∃ before token after, tokens = before ++ token :: after ∧ token = ⟨kind, span⟩ ∧
        (∃ rest, ∀ length, ∃ phrase, ofTokens length (before ++ rest) = .ok phrase) ∧
        ∀ length rest phrase, ofTokens length (before ++ token :: rest) ≠ .ok phrase) ∧
    ∀ expected span, ofTokens size tokens = .error (.fault (.unexpectedEnd expected) span) →
      (∃ rest, ∀ length, ∃ phrase, ofTokens length (tokens ++ rest) = .ok phrase) ∧
        ∀ length phrase, ofTokens length tokens ≠ .ok phrase := by
  constructor
  next =>
    intro kind expected span failure
    obtain ⟨front, rest, wanted, joined, same, viable, doomed⟩ :=
      exists_of_ofTokens_error failure (by simp)
    cases rest with
    | nil => cases same
    | cons token behind =>
      cases same
      obtain ⟨before, after, inner, next, split, drops, keeps⟩ := Token.exists_of_joinLines joined
      have start := drops []
      rw [List.append_nil, Token.joinLines, List.append_nil] at start
      rw [← start] at viable
      refine ⟨before, token, after, split, rfl, exists_accepted viable, fun length rest => ?_⟩
      have whole := drops (token :: rest)
      rw [keeps] at whole
      obtain ⟨error, fails⟩ := doomed token behind rfl (Token.joinLines next rest) _ (Nat.le_refl _)
      have unread : ofTokens size (before ++ token :: rest) = .error error := by
        rw [ofTokens, whole, fails, error_bind]
      exact ofTokens_ne_ok ⟨error, unread⟩ length
  next =>
    intro expected span failure
    obtain ⟨front, rest, wanted, joined, same, viable, -⟩ :=
      exists_of_ofTokens_error failure (by simp)
    cases rest with
    | nil =>
      rw [List.append_nil] at joined
      rw [← joined] at viable
      exact ⟨exists_accepted viable, ofTokens_ne_ok ⟨_, failure⟩⟩
    | cons token behind => cases same

-- `1 + )` and `1 +`.
theorem ofTokens_fails_at_hopeless_parenthesis :
    let one : Token := ⟨.number, ⟨0, 1⟩⟩
    let plus : Token := ⟨.symbol .plus, ⟨2, 3⟩⟩
    let closing : Token := ⟨.symbol .closeParen, ⟨4, 5⟩⟩
    ofTokens 5 [one, plus, closing] =
        .error (.fault (.unexpectedToken (.symbol .closeParen) .expression) ⟨4, 5⟩) ∧
      (∀ length rest phrase, ofTokens length ([one, plus] ++ closing :: rest) ≠ .ok phrase) ∧
      ofTokens 3 [one, plus] = .error (.fault (.unexpectedEnd .expression) ⟨3, 3⟩) ∧
      (∃ rest, ∀ length, ∃ phrase, ofTokens length ([one, plus] ++ rest) = .ok phrase) := by
  intro one plus closing
  have fails : ofTokens 5 [one, plus, closing] =
      .error (.fault (.unexpectedToken (.symbol .closeParen) .expression) ⟨4, 5⟩) := rfl
  have ends : ofTokens 3 [one, plus] = .error (.fault (.unexpectedEnd .expression) ⟨3, 3⟩) := rfl
  obtain ⟨before, token, after, split, rfl, -, hopeless⟩ :=
    (ofTokens_fails_at_first_hopeless 5 _).1 _ _ _ fails
  have front : before = [one, plus] := by
    rcases before with _ | ⟨first, _ | ⟨second, _ | ⟨third, more⟩⟩⟩
    all_goals simp_all [one, plus, closing]
  rw [front] at hopeless
  exact ⟨fails, hopeless, ends, ((ofTokens_fails_at_first_hopeless 3 _).2 _ _ ends).1⟩

end Phrase

end StackScript
