import Mathlib.Data.List.TakeWhile
import StackScript.Proofs.Agreement.Lowering
import StackScript.Proofs.Agreement.Reading
import StackScript.Proofs.Joining
import StackScript.Proofs.Printing

/-!
Layout never changes the code. The layout of a source is all that is left of it without blanks,
comments and joined lines, and with one separator for each run of them; sources of one layout have
the same code or fail for the same reason.
-/

set_option autoImplicit false

namespace StackScript

namespace Token

/-- The kinds and texts of tokens, where `depth` parentheses are open, and `none` for each separator
outside of parentheses. -/
def marks (source : List Char) : (depth : Nat) → List Token → List (Option Part)
  | _, [] => []
  | depth, token :: rest =>
    let mark :=
      if depth = 0 ∧ token.kind.isSeparator = true then none else some (token.part source)
    mark :: marks source (token.kind.deepen depth) rest

def squeeze : Option Part → List (Option Part) → List (Option Part)
  | none, [] => []
  | none, none :: rest => none :: rest
  | mark, rest => mark :: rest

/-- What tokens spell, newlines in parentheses set aside: runs of separators count as one, and those
at the front and at the back do not count. -/
def layout (source : List Char) (tokens : List Token) : List (Option Part) :=
  ((marks source 0 (unbroken tokens)).foldr squeeze []).dropWhile Option.isNone

theorem squeeze_some (part : Part) (rest : List (Option Part)) :
    squeeze (some part) rest = some part :: rest := by
  cases rest <;> rfl

theorem dropWhile_squeeze_none (rest : List (Option Part)) :
    (squeeze none rest).dropWhile Option.isNone = rest.dropWhile Option.isNone := by
  match rest with
  | [] | none :: _ | some _ :: _ => rfl

theorem squeeze_none_ne_some (rest others : List (Option Part)) (part : Part) :
    squeeze none rest ≠ some part :: others := by
  match rest with
  | [] | none :: _ | some _ :: _ => simp [squeeze]

theorem squeeze_none_eq_nil {rest : List (Option Part)} (empty : squeeze none rest = []) :
    rest = [] := by
  match rest with
  | [] => rfl
  | none :: _ | some _ :: _ => simp [squeeze] at empty

theorem deepen_of_isSeparator {kind : Kind} (separator : kind.isSeparator = true) (depth : Nat) :
    kind.deepen depth = depth := by
  apply Kind.deepen_of_plain
  all_goals
    rintro rfl
    cases separator

def squeezed (source : List Char) (depth : Nat) (tokens : List Token) : List (Option Part) :=
  (marks source depth tokens).foldr squeeze []

theorem squeezed_separator {source : List Char} {token : Token}
    (separator : token.kind.isSeparator = true) (rest : List Token) :
    squeezed source 0 (token :: rest) = squeeze none (squeezed source 0 rest) := by
  simp [squeezed, marks, separator, deepen_of_isSeparator separator]

theorem squeezed_word {source : List Char} {depth : Nat} {token : Token}
    (word : ¬ (depth = 0 ∧ token.kind.isSeparator = true)) (rest : List Token) :
    squeezed source depth (token :: rest) =
      some (token.part source) :: squeezed source (token.kind.deepen depth) rest := by
  simp only [squeezed, marks, if_neg word, List.foldr_cons, squeeze_some]

theorem squeezed_skip (source : List Char) (tokens : List Token) :
    squeezed source 0 (skip tokens) = (squeezed source 0 tokens).dropWhile Option.isNone := by
  induction tokens with
  | nil => rfl
  | cons token rest ih =>
    by_cases separator : token.kind.isSeparator = true
    next =>
      have skipped : skip (token :: rest) = skip rest := by simp [skip, separator]
      rw [skipped, squeezed_separator separator, dropWhile_squeeze_none, ih]
    next =>
      have kept : skip (token :: rest) = token :: rest := by simp [skip, separator]
      rw [kept, squeezed_word (by simp [separator])]
      rfl

theorem isSeparator_of_squeezed_eq_nil {source : List Char} {depth : Nat} {tokens : List Token}
    (empty : squeezed source depth tokens = []) :
    ∀ token ∈ tokens, token.kind.isSeparator = true := by
  induction tokens generalizing depth with
  | nil => simp
  | cons token rest ih =>
    by_cases separator : depth = 0 ∧ token.kind.isSeparator = true
    next =>
      obtain ⟨rfl, separator⟩ := separator
      rw [squeezed_separator separator] at empty
      intro other member
      rcases List.mem_cons.mp member with rfl | member
      next => exact separator
      next => exact ih (squeeze_none_eq_nil empty) other member
    next =>
      rw [squeezed_word separator] at empty
      cases empty

end Token

-- Any two spans stand for each other: only what leaves spell is kept.
def Correspondence.free (source other : List Char) : Correspondence where
  source := source
  other := other
  spans := fun _ _ => True
  join := fun _ _ => trivial

namespace Token

variable {source other : List Char}

theorem ends_of_isSeparator {tokens : List Token}
    (separators : ∀ token ∈ tokens, token.kind.isSeparator = true) : Ends tokens :=
  fun token first => separators token (List.mem_of_mem_head? first)

theorem alike_of_isSeparator {correspondence : Correspondence} {tokens others : List Token}
    (separators : ∀ token ∈ tokens, token.kind.isSeparator = true)
    (otherSeparators : ∀ token ∈ others, token.kind.isSeparator = true) :
    Alike correspondence tokens others := by
  apply Alike.gap (ends_of_isSeparator separators) (ends_of_isSeparator otherSeparators)
  rw [skip, skip, List.dropWhile_eq_nil_iff.mpr separators,
    List.dropWhile_eq_nil_iff.mpr otherSeparators]
  exact .nil

theorem alike_of_squeezed {depth : Nat} {tokens others : List Token}
    (same : squeezed source depth tokens = squeezed other depth others) :
    Alike (.free source other) tokens others := by
  -- Behind a run of separators the tokens are compared without it, so they only get fewer.
  induction number : tokens.length using Nat.strongRecOn generalizing depth tokens others with
  | _ number ih =>
    subst number
    cases tokens with
    | nil => exact alike_of_isSeparator (by simp) (isSeparator_of_squeezed_eq_nil same.symm)
    | cons token rest =>
      cases others with
      | nil => exact alike_of_isSeparator (isSeparator_of_squeezed_eq_nil same) (by simp)
      | cons otherToken behind =>
        by_cases separator : depth = 0 ∧ token.kind.isSeparator = true
        next =>
          obtain ⟨rfl, separator⟩ := separator
          rw [squeezed_separator separator] at same
          by_cases otherSeparator : otherToken.kind.isSeparator = true
          next =>
            rw [squeezed_separator otherSeparator] at same
            have dropped := congrArg (List.dropWhile Option.isNone) same
            rw [dropWhile_squeeze_none, dropWhile_squeeze_none, ← squeezed_skip,
              ← squeezed_skip] at dropped
            have fewer : (skip rest).length < (token :: rest).length :=
              Nat.lt_succ_of_le (List.dropWhile_suffix _).length_le
            apply Alike.gap (.cons _ separator) (.cons _ otherSeparator)
            simpa [skip, separator, otherSeparator] using ih _ fewer dropped rfl
          next =>
            rw [squeezed_word (by simp [otherSeparator])] at same
            exact absurd same (squeeze_none_ne_some _ _ _)
        next =>
          rw [squeezed_word separator] at same
          by_cases otherSeparator : depth = 0 ∧ otherToken.kind.isSeparator = true
          next =>
            obtain ⟨rfl, otherSeparator⟩ := otherSeparator
            rw [squeezed_separator otherSeparator] at same
            exact absurd same.symm (squeeze_none_ne_some _ _ _)
          next =>
            rw [squeezed_word otherSeparator] at same
            simp only [List.cons.injEq, Option.some.injEq, part, Prod.mk.injEq] at same
            obtain ⟨⟨kinds, texts⟩, same⟩ := same
            obtain ⟨kind, span⟩ := token
            obtain ⟨otherKind, otherSpan⟩ := otherToken
            dsimp only at kinds texts same
            subst kinds
            have tail := ih rest.length (Nat.lt_succ_self _) same rfl
            by_cases inside : kind.isSeparator = true
            next =>
              apply Alike.gap (.cons _ inside) (.cons _ inside)
              simpa [skip, inside] using tail.skip
            next => exact .word kind (by simpa using inside) ⟨trivial, texts⟩ tail

theorem alike_of_layout {tokens others : List Token}
    (same : layout source tokens = layout other others) :
    Alike (.free source other) (skip (joinLines 0 tokens)) (skip (joinLines 0 others)) := by
  apply alike_of_squeezed
  rw [squeezed_skip, squeezed_skip, joinLines_eq_unbroken, joinLines_eq_unbroken]
  exact same

end Token

theorem Phrase.agree_ofSource {source other : List Char} {tokens others : List Token}
    (scanned : Token.ofSource source = .ok tokens)
    (otherScanned : Token.ofSource other = .ok others)
    (same : Token.layout source tokens = Token.layout other others) :
    Agree (Matched (.free source other)) (ofSource source) (ofSource other) := by
  have agree : Agree (Alike (.free source other)) (ofTokens (Text.byteLength source) tokens)
      (ofTokens (Text.byteLength other) others) :=
    agree_ofTokens trivial (Token.alike_of_layout same)
  rw [ofSource, ofSource, scanned, otherScanned]
  apply agree.mono_of_ok
  intro phrase otherPhrase read otherRead alike
  exact ⟨alike, legible_of_ofTokens (Token.placed_of_ofSource scanned) read,
    legible_of_ofTokens (Token.placed_of_ofSource otherScanned) otherRead⟩

theorem Program.agree_ofSource {source other : List Char} (nonempty : source ≠ [])
    (otherNonempty : other ≠ []) {tokens others : List Token}
    (scanned : Token.ofSource source = .ok tokens)
    (otherScanned : Token.ofSource other = .ok others)
    (same : Token.layout source tokens = Token.layout other others) :
    Agree (Alike (.free source other)) (ofSource source) (ofSource other) := by
  rw [ofSource_eq nonempty, ofSource_eq otherNonempty]
  apply (Phrase.agree_ofSource scanned otherScanned same).bind
  intro phrase otherPhrase matched
  exact Phrase.agree_toProgram nestingLimit matched

theorem layout_determines_code {source other : List Char} (nonempty : source ≠ [])
    (otherNonempty : other ≠ []) {tokens others : List Token}
    (scanned : Token.ofSource source = .ok tokens)
    (otherScanned : Token.ofSource other = .ok others)
    (same : Token.layout source tokens = Token.layout other others) :
    (∃ code, compile source = .ok code ∧ compile other = .ok code) ∨
      ∃ error problem, compile source = .error error ∧ compile other = .error problem ∧
        error.variant = problem.variant := by
  have agree : Agree Eq (compile source) (compile other) := by
    apply (Program.agree_ofSource nonempty otherNonempty scanned otherScanned same).bind
    intro program otherProgram alike
    exact Program.agree_compile alike
  generalize compile source = result at agree
  generalize compile other = otherResult at agree
  cases agree with
  | ok same => exact .inl ⟨_, rfl, congrArg Except.ok same.symm⟩
  | error same => exact .inr ⟨_, _, rfl, rfl, same⟩

def denseCall : List Char :=
  "x=6\nprint(x*7)".toList

def sparseCall : List Char :=
  ";x = \\\n6 ;; # six\n\nprint(\n x * 7 # answer\n)\n".toList

theorem layout_determines_code_of_calls :
    denseCall ≠ [] ∧ sparseCall ≠ [] ∧ ∃ tokens others,
      Token.ofSource denseCall = .ok tokens ∧ Token.ofSource sparseCall = .ok others ∧
      Token.layout denseCall tokens = Token.layout sparseCall others ∧
      ((∃ code, compile denseCall = .ok code ∧ compile sparseCall = .ok code) ∨
        ∃ error problem, compile denseCall = .error error ∧ compile sparseCall = .error problem ∧
          error.variant = problem.variant) := by
  have nonempty : denseCall ≠ [] := by decide +kernel
  have otherNonempty : sparseCall ≠ [] := by decide +kernel
  have scans : (Token.ofSource denseCall).toOption.isSome = true := by decide +kernel
  have otherScans : (Token.ofSource sparseCall).toOption.isSome = true := by decide +kernel
  have same : (Token.ofSource denseCall).toOption.map (Token.layout denseCall) =
      (Token.ofSource sparseCall).toOption.map (Token.layout sparseCall) := by
    decide +kernel
  obtain ⟨tokens, found⟩ := Option.isSome_iff_exists.mp scans
  obtain ⟨others, otherFound⟩ := Option.isSome_iff_exists.mp otherScans
  rw [found, otherFound, Option.map_some, Option.map_some, Option.some.injEq] at same
  have scanned := eq_ok_of_toOption found
  have otherScanned := eq_ok_of_toOption otherFound
  exact ⟨nonempty, otherNonempty, tokens, others, scanned, otherScanned, same,
    layout_determines_code nonempty otherNonempty scanned otherScanned same⟩

end StackScript
