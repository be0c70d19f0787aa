import Mathlib.Data.List.Induction
import Mathlib.Data.List.Infix
import StackScript.Proofs.Derivation

set_option autoImplicit false

namespace StackScript

namespace Token

/-- Whether what follows the tokens is in parentheses: from some token on, more of them are opened
than closed. -/
def isInside (before : List Token) : Bool :=
  before.tails.any fun part =>
    part.countP (·.kind = .symbol .closeParen) < part.countP (·.kind = .symbol .openParen)

/-- The tokens, less the newlines in parentheses. -/
def unbroken (tokens : List Token) : List Token :=
  ((tokens.zip tokens.inits).filter fun place =>
    !(place.1.kind = .newline && isInside place.2)).map Prod.fst

def Kind.deepen (depth : Nat) : Kind → Nat
  | symbol .openParen => depth + 1
  | symbol .closeParen => depth - 1
  | _ => depth

theorem Kind.deepen_of_plain {kind : Kind} (opening : kind ≠ .symbol .openParen)
    (closing : kind ≠ .symbol .closeParen) (depth : Nat) : kind.deepen depth = depth := by
  unfold deepen
  split <;> simp_all

def openDepth (tokens : List Token) : Nat :=
  tokens.foldl (fun depth token => token.kind.deepen depth) 0

theorem openDepth_concat (tokens : List Token) (token : Token) :
    openDepth (tokens ++ [token]) = token.kind.deepen (openDepth tokens) := by
  simp [openDepth]

theorem exists_suffix_concat {tokens : List Token} {token : Token} {holds : List Token → Prop}
    (empty : ¬ holds []) :
    (∃ part, part <:+ tokens ++ [token] ∧ holds part) ↔
      ∃ part, part <:+ tokens ∧ holds (part ++ [token]) := by
  constructor
  next =>
    rintro ⟨part, behind, found⟩
    rcases List.suffix_concat_iff.mp behind with rfl | ⟨front, rfl, suffix⟩
    next => exact absurd found empty
    next => exact ⟨front, suffix, found⟩
  next =>
    rintro ⟨part, suffix, found⟩
    exact ⟨part ++ [token], List.suffix_concat_iff.mpr (.inr ⟨part, rfl, suffix⟩), found⟩

-- The depth is the largest surplus of opening parentheses in a part at the end, since a closing one
-- that closes nothing is forgotten.
theorem lt_openDepth_iff {tokens : List Token} {count : Nat} :
    count < openDepth tokens ↔ ∃ part, part <:+ tokens ∧
      part.countP (·.kind = .symbol .closeParen) + count <
        part.countP (·.kind = .symbol .openParen) := by
  induction tokens using List.reverseRecOn generalizing count with
  | nil => simp [openDepth]
  | append_singleton front token ih =>
    rw [openDepth_concat, exists_suffix_concat (by simp)]
    simp only [List.countP_append, List.countP_singleton]
    by_cases opens : token.kind = .symbol .openParen
    next =>
      simp only [opens, Kind.deepen]
      cases count with
      | zero => exact iff_of_true (by omega) ⟨[], List.nil_suffix, by simp⟩
      | succ count => simpa [← Nat.add_assoc] using ih
    next =>
      by_cases closes : token.kind = .symbol .closeParen
      next =>
        have later := @ih (count + 1)
        simp only [closes, Kind.deepen]
        rw [Nat.lt_sub_iff_add_lt, later]
        simp [Nat.add_right_comm, Nat.add_assoc]
      next => simpa [opens, closes, Kind.deepen_of_plain opens closes] using ih

theorem isInside_iff {before : List Token} : isInside before = true ↔ 0 < openDepth before := by
  rw [lt_openDepth_iff, isInside]
  simp [List.mem_tails]

theorem joinLines_cons_eq (depth : Nat) (token : Token) (rest : List Token) :
    joinLines depth (token :: rest) =
      if token.kind = .newline ∧ 0 < depth then joinLines (token.kind.deepen depth) rest
      else token :: joinLines (token.kind.deepen depth) rest := by
  rw [joinLines]
  split <;> simp_all [Kind.deepen, Nat.pos_iff_ne_zero]

theorem joinLines_eq_filter (before tokens : List Token) :
    joinLines (openDepth before) tokens =
      ((tokens.zip (tokens.inits.map (before ++ ·))).filter fun place =>
        !(place.1.kind = .newline && isInside place.2)).map Prod.fst := by
  induction tokens generalizing before with
  | nil => rfl
  | cons token rest ih =>
    have later := ih (before ++ [token])
    simp only [openDepth_concat, List.append_assoc, List.singleton_append] at later
    rw [joinLines_cons_eq, later, List.inits_cons, List.map_cons, List.map_map, List.zip_cons_cons,
      List.filter_cons, List.append_nil]
    simp only [Function.comp_def, ← isInside_iff]
    by_cases dropped : token.kind = .newline ∧ isInside before = true
    next => simp [dropped]
    next =>
      have kept : (!(decide (token.kind = .newline) && isInside before)) = true := by
        simpa [imp_iff_not_or] using dropped
      rw [if_neg dropped, if_pos kept, List.map_cons]

theorem joinLines_eq_unbroken (tokens : List Token) : joinLines 0 tokens = unbroken tokens := by
  have joined := joinLines_eq_filter [] tokens
  simpa [unbroken, openDepth] using joined

theorem sublist_joinLines (depth : Nat) (tokens : List Token) :
    (joinLines depth tokens).Sublist tokens := by
  fun_induction joinLines depth tokens with
  | case1 => exact .slnil
  | case5 depth token rest newline inside ih => exact ih.cons token
  | case2 _ token _ _ ih | case3 _ token _ _ ih | case4 token _ _ ih | case6 _ token _ _ _ _ ih =>
    exact ih.cons_cons token

theorem joinLines_plain {token : Token} (depth : Nat) (rest : List Token)
    (opening : token.kind ≠ .symbol .openParen) (closing : token.kind ≠ .symbol .closeParen)
    (newline : token.kind ≠ .newline) :
    joinLines depth (token :: rest) = token :: joinLines depth rest := by
  rw [joinLines_cons_eq, if_neg fun dropped => newline dropped.1,
    Kind.deepen_of_plain opening closing]

theorem joinLines_joinLines_append (depth : Nat) (tokens rest : List Token) :
    joinLines depth (joinLines depth tokens ++ rest) = joinLines depth (tokens ++ rest) := by
  fun_induction joinLines depth tokens with
  | case1 => rfl
  | _ => simp_all [joinLines]

theorem joinLines_cons (depth : Nat) (token : Token) :
    (∃ inner, ∀ rest, joinLines depth (token :: rest) = token :: joinLines inner rest) ∨
      (token.kind = .newline ∧ ∀ rest, joinLines depth (token :: rest) = joinLines depth rest) := by
  by_cases dropped : token.kind = .newline ∧ 0 < depth
  next =>
    refine .inr ⟨dropped.1, fun rest => ?_⟩
    rw [joinLines_cons_eq, if_pos dropped, dropped.1]
    rfl
  next =>
    refine .inl ⟨token.kind.deepen depth, fun rest => ?_⟩
    rw [joinLines_cons_eq, if_neg dropped]

theorem exists_of_joinLines {depth : Nat} {tokens front rest : List Token} {token : Token}
    (same : joinLines depth tokens = front ++ token :: rest) :
    ∃ before after inner next, tokens = before ++ token :: after ∧
      (∀ others, joinLines depth (before ++ others) = front ++ joinLines inner others) ∧
      ∀ others, joinLines inner (token :: others) = token :: joinLines next others := by
  induction tokens generalizing depth front with
  | nil => simp [joinLines] at same
  | cons first others ih =>
    rcases joinLines_cons depth first with ⟨inner, kept⟩ | ⟨-, dropped⟩
    next =>
      rw [kept] at same
      cases front with
      | nil =>
        obtain ⟨rfl, -⟩ := List.cons.inj same
        exact ⟨[], others, depth, inner, rfl, fun _ => rfl, kept⟩
      | cons head part =>
        obtain ⟨rfl, tail⟩ := List.cons.inj same
        obtain ⟨before, after, deeper, next, rfl, split, keeps⟩ := ih tail
        refine ⟨first :: before, after, deeper, next, rfl, fun others => ?_, keeps⟩
        rw [List.cons_append, kept, split, List.cons_append]
    next =>
      rw [dropped] at same
      obtain ⟨before, after, deeper, next, rfl, split, keeps⟩ := ih same
      refine ⟨first :: before, after, deeper, next, rfl, fun others => ?_, keeps⟩
      rw [List.cons_append, dropped, split]

theorem joinLines_eq_self {tokens : List Token}
    (plain : ∀ token ∈ tokens, token.kind ≠ .newline) (depth : Nat) :
    joinLines depth tokens = tokens := by
  induction tokens generalizing depth with
  | nil => rfl
  | cons token rest ih =>
    simp only [List.mem_cons, forall_eq_or_imp] at plain
    rcases joinLines_cons depth token with ⟨inner, kept⟩ | ⟨newline, -⟩
    next => rw [kept, ih plain.2]
    next => exact absurd newline plain.1

end Token

namespace Derivation

theorem joinLines_tokens {category : Category} (derivation : Derivation category) (depth : Nat)
    (rest : List Token) :
    Token.joinLines depth (derivation.tokens ++ rest) =
      derivation.tokens ++ Token.joinLines depth rest := by
  -- There is no newline in a derivation, and its parentheses are closed again: `rest` is reached
  -- at the same depth.
  induction derivation generalizing depth rest with
  | link operator fits operand others ihOperand ihOthers =>
    have plain (kind : Token.Kind) (other : ∀ tier : Tier, tier.isOperator kind = false) :
        operator.kind ≠ kind := by
      rintro rfl
      simp [other] at fits
    rw [tokens, List.cons_append, Token.joinLines_plain depth _ (plain _ (by rintro ⟨⟩ <;> rfl))
      (plain _ (by rintro ⟨⟩ <;> rfl)) (plain _ (by rintro ⟨⟩ <;> rfl)), List.append_assoc,
      ihOperand, ihOthers, List.cons_append, List.append_assoc]
  | unary sign fits operand ih =>
    have plain (kind : Token.Kind) (other : kind.isUnary = false) : sign.kind ≠ kind := by
      rintro rfl
      simp [other] at fits
    rw [tokens, List.cons_append, Token.joinLines_plain depth _ (plain _ rfl) (plain _ rfl)
      (plain _ rfl), ih, List.cons_append]
  | leaf token kind fits =>
    have plain (kind : Token.Kind) (other : kind.leaf? = none) : token.kind ≠ kind := by
      rintro rfl
      simp [other] at fits
    exact Token.joinLines_plain depth rest (plain _ rfl) (plain _ rfl) (plain _ rfl)
  | arguments opening first others trailing closing ihFirst ihOthers =>
    cases trailing <;> simp [tokens, trailingTokens, Token.joinLines, ihFirst, ihOthers]
  | _ => simp_all [tokens, Token.joinLines]

theorem Statement.joinLines_tokens (statement : Statement) (depth : Nat) (rest : List Token) :
    Token.joinLines depth (statement.tokens ++ rest) =
      statement.tokens ++ Token.joinLines depth rest := by
  cases statement with
  | pass word => rfl
  | assign name sign value => simp [tokens, Token.joinLines, Derivation.joinLines_tokens]
  | expression value => exact value.joinLines_tokens depth rest

theorem Separators.joinLines_tokens (separators : Separators) (rest : List Token) :
    Token.joinLines 0 (separators.tokens ++ rest) =
      separators.tokens ++ Token.joinLines 0 rest := by
  obtain ⟨tokens, separate⟩ := separators
  dsimp only
  induction tokens with
  | nil => rfl
  | cons token others ih =>
    simp only [List.mem_cons, forall_eq_or_imp] at separate
    have plain : Token.joinLines 0 (token :: (others ++ rest)) =
        token :: Token.joinLines 0 (others ++ rest) := by
      have separator := separate.1
      unfold Token.Kind.isSeparator at separator
      split at separator <;> simp_all [Token.joinLines]
    rw [List.cons_append, plain, ih separate.2, List.cons_append]

theorem Lines.joinLines_tokens (lines : Lines) (rest : List Token) :
    Token.joinLines 0 (lines.tokens ++ rest) = lines.tokens ++ Token.joinLines 0 rest := by
  induction lines with
  | last statement after =>
    simp only [tokens, List.append_assoc, Statement.joinLines_tokens, Separators.joinLines_tokens]
  | next statement between apart others ih =>
    simp only [tokens, List.append_assoc, Statement.joinLines_tokens, Separators.joinLines_tokens,
      ih]

theorem Script.joinLines_tokens (script : Script) (rest : List Token) :
    Token.joinLines 0 (script.tokens ++ rest) = script.tokens ++ Token.joinLines 0 rest := by
  obtain ⟨before, lines⟩ := script
  rw [tokens, List.append_assoc, Separators.joinLines_tokens, List.append_assoc]
  cases lines with
  | none => rfl
  | some lines => exact congrArg (before.tokens ++ ·) (lines.joinLines_tokens rest)

theorem Lines.exists_split {lines : Lines} {phrase : Phrase} (member : phrase ∈ lines.trees) :
    ∃ before after, ∃ statement : Statement, lines.tokens = before ++ (statement.tokens ++ after) ∧
      statement.tree = phrase ∧ statement.nesting ≤ lines.nesting ∧
        ∀ rest, Token.joinLines 0 (before ++ rest) = before ++ Token.joinLines 0 rest := by
  induction lines with
  | last statement after =>
    cases List.mem_singleton.mp member
    exact ⟨[], after.tokens, statement, rfl, rfl, Nat.le_refl _, fun _ => rfl⟩
  | next statement between apart others ih =>
    rcases List.mem_cons.mp member with rfl | later
    next =>
      exact ⟨[], between.tokens ++ others.tokens, statement, rfl, rfl, Nat.le_max_left _ _,
        fun _ => rfl⟩
    next =>
      obtain ⟨before, after, found, same, sameTree, shallow, joins⟩ := ih later
      refine ⟨statement.tokens ++ (between.tokens ++ before), after, found, ?_, sameTree,
        Nat.le_trans shallow (Nat.le_max_right _ _), fun rest => ?_⟩
      next => simp [tokens, same]
      next =>
        simp only [List.append_assoc, Statement.joinLines_tokens, Separators.joinLines_tokens,
          joins]

theorem Script.exists_split {script : Script} {phrase : Phrase} (member : phrase ∈ script.trees) :
    ∃ before after, ∃ statement : Statement, script.tokens = before ++ (statement.tokens ++ after) ∧
      statement.tree = phrase ∧ statement.nesting ≤ script.nesting ∧
        ∀ rest, Token.joinLines 0 (before ++ rest) = before ++ Token.joinLines 0 rest := by
  obtain ⟨separators, lines⟩ := script
  cases lines with
  | none => exact absurd member List.not_mem_nil
  | some lines =>
    obtain ⟨before, after, statement, same, sameTree, shallow, joins⟩ := Lines.exists_split member
    refine ⟨separators.tokens ++ before, after, statement, ?_, sameTree, shallow, fun rest => ?_⟩
    next => simp [tokens, same]
    next => rw [List.append_assoc, Separators.joinLines_tokens, joins, List.append_assoc]

end Derivation

end StackScript
