import StackScript.Proofs.Except
import StackScript.Token.Scan

set_option autoImplicit false

namespace StackScript

namespace Text

def isIdentifier : List Char → Bool
  | [] => false
  | first :: rest => Pattern.isWordStart first && rest.all Pattern.isWordPart

def isKeyword (text : List Char) : Bool :=
  Keyword.all.any fun word => word.text.toList = text

def isName (text : List Char) : Bool :=
  isIdentifier text && !isKeyword text

end Text

namespace Pattern

theorem extent_lt_of_longestOf {text : List Char} {front back : List Pattern} {pattern : Pattern}
    {extent : Nat} (found : longestOf text (front ++ back) = some (pattern, extent))
    (later : pattern ∉ front) {other : Pattern} (member : other ∈ front) :
    other.extent text < extent := by
  induction front with
  | nil => simp at member
  | cons first rest ih =>
    rw [List.cons_append, longestOf] at found
    simp only [List.mem_cons, not_or] at later
    split at found
    · split at found
      · simp at found
      · simp only [Option.some.injEq, Prod.mk.injEq] at found
        exact absurd found.1.symm later.1
    · rename_i longest longer deeper
      split at found
      · rename_i shorter
        simp only [Option.some.injEq, Prod.mk.injEq] at found
        obtain ⟨rfl, rfl⟩ := found
        rcases List.mem_cons.mp member with rfl | member
        · exact shorter
        · exact ih deeper later.2 member
      · simp only [Option.some.injEq, Prod.mk.injEq] at found
        exact absurd found.1.symm later.1

theorem keyword_extent_lt {text : List Char} {extent : Nat}
    (found : longest text = some (.token .name, extent)) (word : Keyword) :
    literalExtent word.text.toList text < extent := by
  have split : all = ([blank, comment, joinedLine] ++ Keyword.all.map (token <| .keyword ·)) ++
      ([token .name, token .number, token .string] ++ Symbol.all.map (token <| .symbol ·) ++
        [token .newline]) := by
    simp [all]
  rw [longest, split] at found
  have member : token (.keyword word) ∈
      [blank, comment, joinedLine] ++ Keyword.all.map (token <| .keyword ·) := by
    simp [word.mem_all]
  exact extent_lt_of_longestOf found (by simp [Keyword.all]) member

theorem take_literalExtent {word text : List Char} (covered : 0 < literalExtent word text) :
    text.take (literalExtent word text) = word := by
  unfold literalExtent at covered ⊢
  split at covered
  · rename_i isPrefix
    rw [if_pos isPrefix]
    exact (List.prefix_iff_eq_take.mp (List.isPrefixOf_iff_prefix.mp isPrefix)).symm
  · simp at covered

theorem literalExtent_append (word rest : List Char) :
    literalExtent word (word ++ rest) = word.length := by
  simp [literalExtent]

theorem nameExtent_le (text : List Char) : nameExtent text ≤ text.length := by
  cases text with
  | nil => exact Nat.le_refl _
  | cons first rest =>
    have inside := (List.takeWhile_prefix isWordPart (l := rest)).length_le
    rw [nameExtent, List.length_cons]
    split <;> omega

theorem isIdentifier_take_nameExtent {text : List Char} (covered : 0 < nameExtent text) :
    Text.isIdentifier (text.take (nameExtent text)) = true := by
  cases text with
  | nil => simp [nameExtent] at covered
  | cons first rest =>
    rw [nameExtent] at covered ⊢
    split at covered
    · rename_i starts
      rw [if_pos starts, Nat.add_comm, List.take_succ_cons,
        ← List.prefix_iff_eq_take.mp (List.takeWhile_prefix isWordPart)]
      simp [Text.isIdentifier, starts]
    · simp at covered

theorem head_of_numberExtent {text : List Char} (covered : 0 < numberExtent text) :
    ∃ first rest, text = first :: rest ∧ (first.isDigit = true ∨ first = '.') := by
  cases text with
  | nil => simp [numberExtent, digitsExtent] at covered
  | cons first rest =>
    refine ⟨first, rest, rfl, ?_⟩
    by_cases digit : first.isDigit = true
    · exact .inl digit
    · right
      simp only [numberExtent, digitsExtent, List.takeWhile_cons_of_neg digit, List.length_nil,
        List.drop_zero] at covered
      split at covered
      · rename_i behind same
        simp_all
      · simp at covered

end Pattern

namespace Token

-- The texts that tokens of a kind have; of strings and newlines nothing is said.
def Kind.Spells : Kind → List Char → Prop
  | keyword word, text => text = word.text.toList
  | name, text => Text.isName text = true
  | number, text => ∃ first rest, text = first :: rest ∧ (first.isDigit = true ∨ first = '.')
  | symbol sign, text => text = sign.text.toList
  | string, _ | newline, _ => True

theorem Kind.spells_of_longest {text : List Char} {kind : Kind} {extent : Nat}
    (found : Pattern.longest text = some (.token kind, extent)) :
    kind.Spells (text.take extent) := by
  obtain ⟨-, same, covered, -⟩ := Pattern.longestOf_eq_some found
  cases kind with
  | keyword word =>
    subst same
    exact Pattern.take_literalExtent covered
  | name =>
    -- Keywords come before names, so one that covered as much would have been taken.
    have keywords := Pattern.keyword_extent_lt found
    subst same
    have identifier := Pattern.isIdentifier_take_nameExtent covered
    have other : ∀ word : Keyword, word.text.toList ≠ text.take (Pattern.nameExtent text) := by
      intro word spelled
      have shorter := keywords word
      have length := congrArg List.length spelled
      rw [List.length_take, Nat.min_eq_left (Pattern.nameExtent_le text)] at length
      have whole :=
        Pattern.literalExtent_append word.text.toList (text.drop (Pattern.nameExtent text))
      rw [spelled, List.take_append_drop, ← spelled] at whole
      exact absurd (whole.trans length) (Nat.ne_of_lt shorter)
    change Text.isName (text.take (Pattern.nameExtent text)) = true
    simp [Text.isName, identifier, Text.isKeyword, other]
  | number =>
    subst same
    obtain ⟨first, rest, rfl, starts⟩ := Pattern.head_of_numberExtent covered
    obtain ⟨length, same⟩ := Nat.exists_eq_add_one_of_ne_zero (Nat.ne_of_gt covered)
    exact ⟨first, rest.take length, by rw [same, List.take_succ_cons], starts⟩
  | symbol sign =>
    subst same
    exact Pattern.take_literalExtent covered
  | string => trivial
  | newline => trivial

def SpelledIn (source : List Char) (token : Token) : Prop :=
  token.kind.Spells (token.span.slice source)

theorem slice_take {before text : List Char} (extent : Nat) :
    Span.slice ⟨Text.byteLength before,
      Text.byteLength before + Text.byteLength (text.take extent)⟩ (before ++ text) =
        text.take extent := by
  have split : before ++ text = before ++ text.take extent ++ text.drop extent := by
    rw [List.append_assoc, List.take_append_drop]
  rw [split]
  exact Span.slice_append before (text.take extent) (text.drop extent)

theorem spelledIn_of_mem_scan {source before text : List Char} {offset : Nat} {tokens : List Token}
    (scanned : scan offset text = .ok tokens) (same : source = before ++ text)
    (start : offset = Text.byteLength before) :
    ∀ token ∈ tokens, token.SpelledIn source := by
  -- What is left to scan stands behind what was scanned, and the offset is where that ends.
  fun_induction scan offset text generalizing before tokens with
  | case1 =>
    cases scanned
    simp
  | case2 => simp at scanned
  | case3 => simp at scanned
  | case4 offset first rest pattern extent found stop others deeper =>
    rename_i ih
    obtain ⟨-, -, covered, -⟩ := Pattern.longestOf_eq_some found
    have behind : rest.drop (extent - 1) = (first :: rest).drop extent := by
      obtain ⟨extent, rfl⟩ := Nat.exists_eq_add_one_of_ne_zero (Nat.ne_of_gt covered)
      rfl
    rw [behind] at deeper ih
    rw [Except.ok.injEq] at scanned
    subst scanned start
    intro token member
    rcases List.mem_append.mp member with here | later
    · cases pattern with
      | token kind =>
        cases List.mem_singleton.mp here
        rw [SpelledIn, same, slice_take]
        exact Kind.spells_of_longest found
      | _ => simp [Pattern.tokens] at here
    · refine @ih (before ++ (first :: rest).take extent) _ deeper ?_ ?_ token later
      · rw [List.append_assoc, List.take_append_drop, same]
      · rw [Text.byteLength_append]

theorem spelledIn_of_mem_ofSource {source : List Char} {tokens : List Token}
    (scanned : ofSource source = .ok tokens) : ∀ token ∈ tokens, token.SpelledIn source :=
  spelledIn_of_mem_scan (mapError_eq_ok.mp scanned) (List.nil_append source).symm rfl

end Token

end StackScript
