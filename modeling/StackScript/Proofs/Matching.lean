import StackScript.Proofs.Scanning

set_option autoImplicit false

namespace StackScript

theorem Keyword.text_injective {word other : Keyword} (same : word.text = other.text) :
    word = other := by
  cases word <;> cases other <;> first | rfl | simp [text] at same

namespace Symbol

theorem text_injective {sign other : Symbol} (same : sign.text = other.text) : sign = other := by
  cases sign <;> cases other <;> first | rfl | simp [text] at same

theorem text_shape (sign : Symbol) : (∃ first, sign.text.toList = [first]) ∨
    ∃ first, ∃ second ∈ ['=', '*', '/'], sign.text.toList = [first, second] := by
  cases sign <;> first
    | exact .inl ⟨_, rfl⟩
    | exact .inr ⟨_, '=', by simp, rfl⟩
    | exact .inr ⟨_, '*', by simp, rfl⟩
    | exact .inr ⟨_, '/', by simp, rfl⟩

end Symbol

namespace Pattern

theorem longest_eq_of_unique {text : List Char} {pattern : Pattern} {extent : Nat}
    (member : pattern ∈ all) (covered : pattern.extent text = extent) (positive : 0 < extent)
    (shorter : ∀ other ∈ all, other ≠ pattern → other.extent text < extent) :
    longest text = some (pattern, extent) := by
  cases found : longest text with
  | none =>
    have nothing := longestOf_eq_none.mp found pattern member
    omega
  | some match_ =>
    obtain ⟨other, length⟩ := match_
    obtain ⟨otherMember, otherCovered, -, most⟩ := longestOf_eq_some found
    have atLeast := most pattern member
    by_cases same : other = pattern
    · subst same
      rw [← covered, otherCovered]
    · have less := shorter other otherMember same
      omega

def starts : Pattern → Char → Bool
  | blank, character => isGap character
  | comment, character => character = '#'
  | joinedLine, character => character = '\\'
  | token (.keyword word), character => word.text.toList.head? = some character
  | token .name, character => isWordStart character
  | token .number, character => character.isDigit || character = '.'
  | token .string, character => character = '"' || character = '\''
  | token (.symbol sign), character => sign.text.toList.head? = some character
  | token .newline, character => character = '\n' || character = '\r'

theorem literalExtent_of_head {word rest : List Char} {first : Char}
    (other : word.head? ≠ some first) : literalExtent word (first :: rest) = 0 := by
  unfold literalExtent
  cases word with
  | nil => simp
  | cons head tail =>
    have different : head ≠ first := by simpa using other
    simp [different]

theorem extent_eq_zero {pattern : Pattern} {first : Char} (rest : List Char)
    (other : pattern.starts first = false) : pattern.extent (first :: rest) = 0 := by
  cases pattern with
  | blank =>
    have noGap : ¬ isGap first = true := by simpa [starts] using other
    simp [extent, gapExtent, noGap]
  | comment =>
    have different : first ≠ '#' := by simpa [starts] using other
    simp only [extent]
    unfold commentExtent
    split <;> simp_all
  | joinedLine =>
    have different : first ≠ '\\' := by simpa [starts] using other
    simp only [extent]
    unfold joinedLineExtent
    split <;> simp_all
  | token kind =>
    cases kind with
    | keyword word => exact literalExtent_of_head (by simpa [starts] using other)
    | symbol sign => exact literalExtent_of_head (by simpa [starts] using other)
    | name =>
      have different : ¬ isWordStart first = true := by simpa [starts] using other
      simp [extent, tokenExtent, nameExtent, different]
    | number =>
      refine Nat.eq_zero_of_not_pos fun covered => ?_
      obtain ⟨head, tail, same, digitOrPoint⟩ := head_of_numberExtent covered
      cases same
      rcases digitOrPoint with digit | rfl
      · simp [starts, digit] at other
      · simp [starts] at other
    | string =>
      have different : ¬ (first = '"' ∨ first = '\'') := by simpa [starts] using other
      simp only [extent, tokenExtent, stringExtent]
      rw [if_neg different]
    | newline =>
      have different : ¬ (first = '\n' ∨ first = '\r') := by simpa [starts] using other
      simp only [extent, tokenExtent]
      unfold newlineExtent
      split <;> simp_all

theorem longest_eq_of_starts {first : Char} {rest : List Char} {pattern : Pattern} {extent : Nat}
    (member : pattern ∈ all) (covered : pattern.extent (first :: rest) = extent)
    (positive : 0 < extent) (alone : ∀ other ∈ all, other.starts first = true → other = pattern) :
    longest (first :: rest) = some (pattern, extent) := by
  refine longest_eq_of_unique member covered positive fun other otherMember different => ?_
  have never : other.starts first = false := by
    cases begins : other.starts first with
    | false => rfl
    | true => exact absurd (alone other otherMember begins) different
  rw [extent_eq_zero rest never]
  exact positive

theorem longest_blank {rest : List Char} (noGap : ∀ next ∈ rest.head?, isGap next = false) :
    longest (' ' :: rest) = some (blank, 1) := by
  refine longest_eq_of_starts (by decide) ?_ Nat.one_pos (by decide)
  cases rest with
  | nil => rfl
  | cons next behind =>
    have stop := noGap next rfl
    rw [extent, gapExtent, List.takeWhile_cons_of_pos (by decide),
      List.takeWhile_cons_of_neg (by simp [stop])]
    rfl

theorem longest_newline (rest : List Char) :
    longest ('\n' :: rest) = some (token .newline, 1) :=
  longest_eq_of_starts (by decide) rfl Nat.one_pos (by decide)

theorem isWordStart_of_keyword {word : Keyword} {first : Char}
    (head : word.text.toList.head? = some first) : isWordStart first = true := by
  have starts : word.text.toList.head?.all isWordStart = true := by
    cases word <;> rfl
  rwa [head] at starts

theorem starts_symbol {sign : Symbol} {first : Char} (text : sign.text.toList = [first])
    {other : Pattern} (begins : other.starts first = true) : other = token (.symbol sign) ∨
      ∃ longer : Symbol, ∃ second ∈ ['=', '*', '/'],
        other = token (.symbol longer) ∧ longer.text.toList = [first, second] := by
  have never (property : Char → Bool)
      (apart : ∀ sign : Symbol, sign.text.toList.any property = false) :
      property first ≠ true := by
    have outside := apart sign
    simpa [text] using outside
  cases other with
  | blank | comment | joinedLine =>
    exact absurd begins (never _ fun sign => by cases sign <;> rfl)
  | token kind =>
    cases kind with
    | name | number | string | newline =>
      exact absurd begins (never _ fun sign => by cases sign <;> rfl)
    | keyword word =>
      have letter := isWordStart_of_keyword (of_decide_eq_true begins)
      exact absurd letter (never _ fun sign => by cases sign <;> rfl)
    | symbol longer =>
      simp only [starts, decide_eq_true_eq] at begins
      rcases longer.text_shape with ⟨head, short⟩ | ⟨head, second, which, long⟩
      · obtain rfl : head = first := by simpa [short] using begins
        have same := Symbol.text_injective (String.toList_injective (short.trans text.symm))
        exact .inl (by rw [same])
      · obtain rfl : head = first := by simpa [long] using begins
        exact .inr ⟨longer, second, which, rfl, long⟩

theorem longest_symbol {sign : Symbol} {first : Char} {rest : List Char}
    (text : sign.text.toList = [first]) (stops : ∀ next ∈ rest.head?, next ∉ ['=', '*', '/']) :
    longest (first :: rest) = some (token (.symbol sign), 1) := by
  have covered : (token (.symbol sign)).extent (first :: rest) = 1 := by
    rw [extent, tokenExtent, text]
    exact literalExtent_append [first] rest
  refine longest_eq_of_unique (by simp [all, sign.mem_all]) covered Nat.one_pos ?_
  intro other member different
  -- The symbols that start with this one go on with a character that does not come next.
  suffices other.extent (first :: rest) = 0 by omega
  cases begins : other.starts first with
  | false => exact extent_eq_zero rest begins
  | true =>
    rcases starts_symbol text begins with same | ⟨longer, second, which, rfl, long⟩
    · exact absurd same different
    · rw [extent, tokenExtent, long]
      cases rest with
      | nil => simp [literalExtent]
      | cons next behind =>
        have stop := stops next rfl
        have apart : second ≠ next := by
          rintro rfl
          exact stop which
        simp [literalExtent, apart]

def Closes (rest : List Char) : Prop :=
  ∀ next ∈ rest.head?, isWordPart next = false ∧ next ≠ '.'

theorem takeWhile_append_of_closes {text rest : List Char} {property : Char → Bool}
    (all : ∀ character ∈ text, property character = true) (closes : Closes rest)
    (word : ∀ character, property character = true → isWordPart character = true) :
    (text ++ rest).takeWhile property = text := by
  rw [List.takeWhile_append_of_pos all]
  cases rest with
  | nil => simp
  | cons next behind =>
    have outside : ¬ property next = true := by
      intro inside
      have stop := (closes next rfl).1
      simp [word next inside] at stop
    rw [List.takeWhile_cons_of_neg outside, List.append_nil]

theorem isWordStart_of_isDigit {character : Char} (digit : character.isDigit = true) :
    isWordStart character = false := by
  have range : 48 ≤ character.toNat ∧ character.toNat ≤ 57 := by
    simpa [Char.isDigit, UInt32.le_iff_toNat_le] using digit
  refine Bool.eq_false_iff.mpr fun word => ?_
  rcases Bool.or_eq_true_iff.mp word with letter | underscore
  · rcases Bool.or_eq_true_iff.mp letter with upper | lower
    · have above : 65 ≤ character.toNat := UInt32.le_iff_toNat_le.mp (of_decide_eq_true upper).1
      omega
    · have above : 97 ≤ character.toNat :=
        UInt32.le_iff_toNat_le.mp (of_decide_eq_true (Bool.and_eq_true_iff.mp lower).1)
      omega
  · rw [eq_of_beq underscore] at digit
    simp at digit

theorem isWordPart_of_isDigit {character : Char} (digit : character.isDigit = true) :
    isWordPart character = true := by
  simp [isWordPart, Char.isAlphanum, digit]

theorem starts_word {first : Char} (word : isWordStart first = true) :
    ∀ other ∈ all, other.starts first = true →
      other = token .name ∨ ∃ keyword, other = token (.keyword keyword) := by
  have never (character : Char) (plain : isWordStart character = false) : first ≠ character := by
    rintro rfl
    simp [word] at plain
  intro other member begins
  cases other with
  | blank => simp [starts, isGap, never ' ' rfl, never '\t' rfl, never '\x0c' rfl] at begins
  | comment => simp [starts, never '#' rfl] at begins
  | joinedLine => simp [starts, never '\\' rfl] at begins
  | token kind =>
    cases kind with
    | keyword keyword => exact .inr ⟨keyword, rfl⟩
    | name => exact .inl rfl
    | number =>
      have digitless : first.isDigit = false := by
        cases digit : first.isDigit with
        | false => rfl
        | true => simp [isWordStart_of_isDigit digit] at word
      simp [starts, digitless, never '.' rfl] at begins
    | string => simp [starts, never '"' rfl, never '\'' rfl] at begins
    | newline => simp [starts, never '\n' rfl, never '\r' rfl] at begins
    | symbol sign =>
      simp only [starts, decide_eq_true_eq] at begins
      cases sign <;> exact absurd (Option.some.inj begins).symm (never _ rfl)

theorem starts_digit {first : Char} (digit : first.isDigit = true) :
    ∀ other ∈ all, other.starts first = true → other = token .number := by
  have never (character : Char) (plain : character.isDigit = false) : first ≠ character := by
    rintro rfl
    simp [digit] at plain
  intro other member begins
  cases other with
  | blank => simp [starts, isGap, never ' ' rfl, never '\t' rfl, never '\x0c' rfl] at begins
  | comment => simp [starts, never '#' rfl] at begins
  | joinedLine => simp [starts, never '\\' rfl] at begins
  | token kind =>
    cases kind with
    | keyword keyword =>
      simp only [starts, decide_eq_true_eq] at begins
      cases keyword <;> exact absurd (Option.some.inj begins).symm (never _ rfl)
    | name => simp [starts, isWordStart_of_isDigit digit] at begins
    | number => rfl
    | string => simp [starts, never '"' rfl, never '\'' rfl] at begins
    | newline => simp [starts, never '\n' rfl, never '\r' rfl] at begins
    | symbol sign =>
      simp only [starts, decide_eq_true_eq] at begins
      cases sign <;> exact absurd (Option.some.inj begins).symm (never _ rfl)

theorem longest_number {digits rest : List Char} (nonempty : digits ≠ [])
    (all : ∀ digit ∈ digits, digit.isDigit = true) (closes : Closes rest) :
    longest (digits ++ rest) = some (token .number, digits.length) := by
  have whole : digitsExtent (digits ++ rest) = digits.length := by
    rw [digitsExtent, takeWhile_append_of_closes all closes fun _ => isWordPart_of_isDigit]
  have noExponent : exponentExtent rest = 0 := by
    cases rest with
    | nil => rfl
    | cons next behind =>
      have stop := (closes next rfl).1
      have unmarked : ¬ (next = 'e' ∨ next = 'E') := by
        rintro (rfl | rfl) <;> simp [isWordPart] at stop
      rw [exponentExtent, if_neg unmarked]
  have covered : numberExtent (digits ++ rest) = digits.length := by
    have positive := List.length_pos_iff.mpr nonempty
    rw [numberExtent, whole, List.drop_left]
    split
    · rename_i behind
      exact absurd rfl (closes '.' rfl).2
    · rw [if_neg (by omega), noExponent, Nat.add_zero]
  cases digits with
  | nil => exact absurd rfl nonempty
  | cons first others =>
    exact longest_eq_of_starts (by decide) covered (Nat.succ_pos _)
      (starts_digit (all first (by simp)))

theorem literalExtent_lt {word name rest : List Char} (different : word ≠ name)
    (part : ∀ character ∈ word, isWordPart character = true) (nonempty : name ≠ [])
    (closes : Closes rest) : literalExtent word (name ++ rest) < name.length := by
  unfold literalExtent
  split
  · rename_i isPrefix
    rw [List.isPrefixOf_iff_prefix] at isPrefix
    refine Nat.lt_of_not_le fun longer => ?_
    -- A word that is no shorter goes on behind the name, with a character that cannot come there.
    obtain ⟨behind, rfl⟩ :=
      List.prefix_of_prefix_length_le (List.prefix_append name rest) isPrefix longer
    rw [List.prefix_append_right_inj] at isPrefix
    cases behind with
    | nil => exact different (List.append_nil name)
    | cons next others =>
      obtain ⟨after, rfl⟩ := isPrefix
      have stop := (closes next rfl).1
      simp [part next (by simp)] at stop
  · exact List.length_pos_iff.mpr nonempty

theorem isWordPart_of_isWordStart {character : Char} (word : isWordStart character = true) :
    isWordPart character = true := by
  simp only [isWordStart, isWordPart, Char.isAlphanum, Bool.or_eq_true] at word ⊢
  rcases word with letter | underscore
  · exact .inl (.inl letter)
  · exact .inr underscore

theorem longest_name {name rest : List Char} (isName : Text.isName name = true)
    (closes : Closes rest) : longest (name ++ rest) = some (token .name, name.length) := by
  cases name with
  | nil => simp [Text.isName, Text.isIdentifier] at isName
  | cons first others =>
    obtain ⟨⟨word, parts⟩, plain⟩ : (isWordStart first = true ∧
        ∀ character ∈ others, isWordPart character = true) ∧
        ∀ keyword ∈ Keyword.all, keyword.text.toList ≠ first :: others := by
      simpa [Text.isName, Text.isIdentifier, Text.isKeyword] using isName
    have covered : nameExtent (first :: others ++ rest) = (first :: others).length := by
      rw [List.cons_append, nameExtent, if_pos word,
        takeWhile_append_of_closes parts closes fun _ inside => inside, List.length_cons,
        Nat.add_comm]
    refine longest_eq_of_unique (by decide) covered (Nat.succ_pos _) ?_
    intro other member different
    -- Only keywords start as names do, and a keyword that is no name covers less.
    cases begins : other.starts first with
    | false =>
      rw [List.cons_append, extent_eq_zero _ begins]
      exact Nat.succ_pos _
    | true =>
      rcases starts_word word other member begins with same | ⟨keyword, rfl⟩
      · exact absurd same different
      · refine literalExtent_lt (plain keyword keyword.mem_all) ?_ (List.cons_ne_nil _ _) closes
        exact List.all_eq_true.mp (by cases keyword <;> rfl)

end Pattern

end StackScript
