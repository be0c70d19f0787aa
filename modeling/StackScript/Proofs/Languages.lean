import Mathlib.Computability.Language
import StackScript.Proofs.Tiling

set_option autoImplicit false

namespace StackScript

open scoped Computability

namespace Text

def one (holds : Char → Prop) : Language Char :=
  {text | ∃ character, holds character ∧ text = [character]}

def range (first last : Char) : Language Char :=
  one fun character => first ≤ character ∧ character ≤ last

def anyOf (characters : List Char) : Language Char :=
  one (· ∈ characters)

def noneOf (characters : List Char) : Language Char :=
  one (· ∉ characters)

def zeroOrOne (language : Language Char) : Language Char :=
  1 + language

def oneOrMore (language : Language Char) : Language Char :=
  language * language∗

theorem mem_one {holds : Char → Prop} {text : List Char} :
    text ∈ one holds ↔ ∃ character, holds character ∧ text = [character] :=
  Iff.rfl

theorem one_congr {holds other : Char → Prop}
    (same : ∀ character, holds character ↔ other character) : one holds = one other := by
  ext text
  simp only [mem_one, same]

theorem one_add (holds other : Char → Prop) :
    one holds + one other = one fun character => holds character ∨ other character := by
  ext text
  simp only [Language.mem_add, mem_one, or_and_right, exists_or]

theorem mem_star_one {holds : Char → Prop} {text : List Char} :
    text ∈ (one holds)∗ ↔ ∀ character ∈ text, holds character := by
  constructor
  next =>
    rintro ⟨pieces, rfl, inside⟩ character member
    obtain ⟨piece, found, member⟩ := List.mem_flatten.mp member
    obtain ⟨other, held, rfl⟩ := inside piece found
    rw [List.mem_singleton.mp member]
    exact held
  next =>
    intro all
    refine ⟨text.map ([·]), ?_, ?_⟩
    next => rw [← List.flatMap_def, List.flatMap_singleton']
    next =>
      intro piece member
      obtain ⟨character, found, rfl⟩ := List.mem_map.mp member
      exact ⟨character, all character found, rfl⟩

theorem mem_one_mul {holds : Char → Prop} {language : Language Char} {text : List Char} :
    text ∈ one holds * language ↔ ∃ first rest, holds first ∧ rest ∈ language ∧
      text = first :: rest := by
  constructor
  next =>
    intro member
    obtain ⟨-, ⟨first, held, rfl⟩, rest, inside, rfl⟩ := Language.mem_mul.mp member
    exact ⟨first, rest, held, inside, rfl⟩
  next =>
    rintro ⟨first, rest, held, inside, rfl⟩
    exact Language.append_mem_mul (l := one holds) (a := [first]) ⟨first, held, rfl⟩ inside

theorem nil_notMem_one (holds : Char → Prop) : [] ∉ one holds := by
  rintro ⟨character, -, same⟩
  cases same

theorem nil_notMem_mul {language other : Language Char} (nonempty : [] ∉ other) :
    [] ∉ language * other := by
  intro member
  obtain ⟨front, -, back, inside, same⟩ := Language.mem_mul.mp member
  obtain ⟨-, rfl⟩ := List.append_eq_nil_iff.mp same
  exact nonempty inside

theorem nil_notMem_one_mul (holds : Char → Prop) (language : Language Char) :
    [] ∉ one holds * language := by
  intro member
  obtain ⟨first, rest, -, -, same⟩ := mem_one_mul.mp member
  cases same

theorem zeroOrOne_mul (language other : Language Char) :
    zeroOrOne language * other = other + language * other := by
  rw [zeroOrOne, add_mul, one_mul]

theorem oneOrMore_mul (language other : Language Char) :
    oneOrMore language * other = language * (language∗ * other) := by
  rw [oneOrMore, mul_assoc]

/-- The longest beginning of the text in the language has so many characters. None may be in it, or
only the empty one, if that is zero. -/
structure Measures (language : Language Char) (text : List Char) (extent : Nat) : Prop where
  covers : 0 < extent → text.take extent ∈ language
  most : ∀ piece rest, piece ∈ language → text = piece ++ rest → piece.length ≤ extent

namespace Measures

variable {language other : Language Char} {text rest : List Char} {extent : Nat}

theorem take_mem (measures : Measures language text extent) (empty : [] ∈ language) :
    text.take extent ∈ language := by
  rcases Nat.eq_zero_or_pos extent with rfl | positive
  next => exact empty
  next => exact measures.covers positive

theorem singleton (word text : List Char) :
    Measures {word} text (Pattern.literalExtent word text) where
  covers := Pattern.take_literalExtent
  most := by
    rintro piece rest rfl rfl
    rw [Pattern.literalExtent_append]

theorem empty (text : List Char) : Measures 1 text 0 where
  covers := by simp
  most := by
    intro piece rest member same
    rw [(Language.mem_one piece).mp member, List.length_nil]

theorem add_left (measures : Measures language text extent) (missing : Measures other text 0) :
    Measures (language + other) text extent where
  covers positive := .inl (measures.covers positive)
  most := by
    rintro piece rest (member | member) same
    next => exact measures.most piece rest member same
    next => exact Nat.le_trans (missing.most piece rest member same) (Nat.zero_le _)

theorem add_right (missing : Measures language text 0) (measures : Measures other text extent) :
    Measures (language + other) text extent := by
  rw [add_comm]
  exact measures.add_left missing

theorem zeroOrOne (measures : Measures language text extent) :
    Measures (Text.zeroOrOne language) text extent :=
  (empty text).add_right measures

section One

variable {holds : Char → Prop} {first : Char}

theorem one_mul_of_neg (other : ∀ first ∈ text.head?, ¬ holds first) :
    Measures (one holds * language) text 0 where
  covers := by simp
  most := by
    intro piece rest member same
    obtain ⟨first, behind, held, -, rfl⟩ := mem_one_mul.mp member
    exact absurd held (other first (by simp [same]))

theorem length_le_of_cons {piece after : List Char} (measures : Measures language rest extent)
    (member : piece ∈ one holds * language) (same : first :: rest = piece ++ after) :
    ∃ behind ∈ language, piece.length = 1 + behind.length ∧ behind.length ≤ extent := by
  obtain ⟨head, behind, -, inside, rfl⟩ := mem_one_mul.mp member
  rw [List.cons_append, List.cons.injEq] at same
  refine ⟨behind, inside, ?_, measures.most behind after inside same.2⟩
  rw [List.length_cons, Nat.add_comm]

theorem one_mul (measures : Measures language rest extent) (held : holds first)
    (empty : [] ∈ language) : Measures (one holds * language) (first :: rest) (1 + extent) where
  covers _ := by
    rw [Nat.add_comm, List.take_succ_cons]
    exact mem_one_mul.mpr ⟨first, _, held, measures.take_mem empty, rfl⟩
  most := by
    intro piece after member same
    obtain ⟨behind, -, length, within⟩ := measures.length_le_of_cons member same
    omega

theorem one_mul_of_nonempty (measures : Measures language rest extent) (held : holds first)
    (nonempty : [] ∉ language) :
    Measures (one holds * language) (first :: rest) (if extent = 0 then 0 else 1 + extent) where
  covers positive := by
    have something : extent ≠ 0 := by
      rintro rfl
      simp at positive
    rw [if_neg something, Nat.add_comm, List.take_succ_cons]
    exact mem_one_mul.mpr
      ⟨first, _, held, measures.covers (Nat.pos_of_ne_zero something), rfl⟩
  most := by
    intro piece after member same
    obtain ⟨behind, inside, length, within⟩ := measures.length_le_of_cons member same
    have something : behind ≠ [] := by
      rintro rfl
      exact nonempty inside
    have positive := List.length_pos_iff.mpr something
    rw [if_neg (by omega)]
    omega

theorem one_of_pos (held : holds first) : Measures (one holds) (first :: rest) 1 := by
  rw [← mul_one (one holds)]
  exact (empty rest).one_mul held Language.nil_mem_one

theorem one_of_neg (other : ∀ first ∈ text.head?, ¬ holds first) :
    Measures (one holds) text 0 := by
  rw [← mul_one (one holds)]
  exact one_mul_of_neg other

end One

section Star

variable {property : Char → Bool}

theorem length_le_of_star {piece after : List Char}
    (measures : Measures language (text.drop (text.takeWhile property).length) extent)
    (apart : ∀ first rest, first :: rest ∈ language → property first = false)
    (member : piece ∈ (one (property · = true))∗ * language) (same : text = piece ++ after) :
    ∃ behind ∈ language, piece.length ≤ (text.takeWhile property).length + behind.length ∧
      behind.length ≤ extent := by
  obtain ⟨run, all, behind, inside, rfl⟩ := Language.mem_mul.mp member
  rw [mem_star_one] at all
  subst same
  rw [List.append_assoc, List.takeWhile_append_of_pos all] at measures ⊢
  refine ⟨behind, inside, by simp only [List.length_append]; omega, ?_⟩
  cases behind with
  | nil => exact Nat.zero_le _
  | cons first rest =>
    have stops : ¬ property first = true := by simp [apart first rest inside]
    rw [List.cons_append, List.takeWhile_cons_of_neg stops, List.append_nil,
      List.drop_left] at measures
    exact measures.most (first :: rest) after inside rfl

theorem takeWhile_mem_star (property : Char → Bool) (text : List Char) :
    text.takeWhile property ∈ (one (property · = true))∗ :=
  mem_star_one.mpr (List.all_eq_true.mp List.all_takeWhile)

theorem take_takeWhile_add (property : Char → Bool) (text : List Char) (extent : Nat) :
    text.take ((text.takeWhile property).length + extent) =
      text.takeWhile property ++ (text.drop (text.takeWhile property).length).take extent := by
  rw [List.take_add, ← List.prefix_iff_eq_take.mp (List.takeWhile_prefix property)]

theorem star_mul
    (measures : Measures language (text.drop (text.takeWhile property).length) extent)
    (apart : ∀ first rest, first :: rest ∈ language → property first = false)
    (empty : [] ∈ language) :
    Measures ((one (property · = true))∗ * language) text
      ((text.takeWhile property).length + extent) where
  covers _ := by
    rw [take_takeWhile_add]
    exact Language.append_mem_mul (takeWhile_mem_star property text) (measures.take_mem empty)
  most := by
    intro piece after member same
    obtain ⟨behind, -, length, within⟩ := measures.length_le_of_star apart member same
    omega

theorem star_mul_of_nonempty
    (measures : Measures language (text.drop (text.takeWhile property).length) extent)
    (apart : ∀ first rest, first :: rest ∈ language → property first = false)
    (nonempty : [] ∉ language) :
    Measures ((one (property · = true))∗ * language) text
      (if extent = 0 then 0 else (text.takeWhile property).length + extent) where
  covers positive := by
    have something : extent ≠ 0 := by
      rintro rfl
      simp at positive
    rw [if_neg something, take_takeWhile_add]
    exact Language.append_mem_mul (takeWhile_mem_star property text)
      (measures.covers (Nat.pos_of_ne_zero something))
  most := by
    intro piece after member same
    obtain ⟨behind, inside, length, within⟩ := measures.length_le_of_star apart member same
    have something : behind ≠ [] := by
      rintro rfl
      exact nonempty inside
    have positive := List.length_pos_iff.mpr something
    rw [if_neg (by omega)]
    omega

theorem star (property : Char → Bool) (text : List Char) :
    Measures (one (property · = true))∗ text (text.takeWhile property).length := by
  rw [← mul_one (one _)∗]
  exact (empty _).star_mul (by simp) Language.nil_mem_one

theorem oneOrMore_mul
    (measures : Measures language (text.drop (text.takeWhile property).length) extent)
    (apart : ∀ first rest, first :: rest ∈ language → property first = false)
    (empty : [] ∈ language) :
    Measures (oneOrMore (one (property · = true)) * language) text
      (if (text.takeWhile property).length = 0 then 0
        else (text.takeWhile property).length + extent) := by
  rw [Text.oneOrMore_mul]
  cases text with
  | nil => exact one_mul_of_neg (by simp)
  | cons first rest =>
    by_cases held : property first = true
    next =>
      rw [List.takeWhile_cons_of_pos held, List.length_cons, List.drop_succ_cons] at measures
      rw [List.takeWhile_cons_of_pos held, List.length_cons, if_neg (Nat.succ_ne_zero _),
        Nat.add_right_comm, Nat.add_comm]
      have member : [] ∈ (one (property · = true))∗ * language :=
        Language.append_mem_mul (Language.nil_mem_kstar _) empty
      exact (measures.star_mul apart empty).one_mul held member
    next =>
      rw [List.takeWhile_cons_of_neg held]
      exact one_mul_of_neg (by simpa using held)

theorem oneOrMore (property : Char → Bool) (text : List Char) :
    Measures (oneOrMore (one (property · = true))) text (text.takeWhile property).length := by
  have same : (text.takeWhile property).length =
      if (text.takeWhile property).length = 0 then 0
        else (text.takeWhile property).length + 0 := by
    split <;> omega
  rw [← mul_one (Text.oneOrMore _), same]
  exact (empty _).oneOrMore_mul (by simp) Language.nil_mem_one

end Star

end Measures

end Text

open Text

def digit : Language Char :=
  range '0' '9'

def exponent : Language Char :=
  anyOf ['e', 'E'] * zeroOrOne (anyOf ['+', '-']) * oneOrMore digit

def quoted (quote : Char) : Language Char :=
  anyOf [quote] * (noneOf [quote, '\n'])∗ * anyOf [quote]

def lineEnd : Language Char :=
  zeroOrOne (anyOf ['\r']) * anyOf ['\n']

def Token.Kind.language : Token.Kind → Language Char
  | keyword word => {word.text.toList}
  | name =>
    (range 'A' 'Z' + range 'a' 'z' + anyOf ['_']) *
      (range 'A' 'Z' + range 'a' 'z' + range '0' '9' + anyOf ['_'])∗
  | number =>
    oneOrMore digit * zeroOrOne (anyOf ['.'] * digit∗) * zeroOrOne exponent +
      anyOf ['.'] * oneOrMore digit * zeroOrOne exponent
  | string => quoted '"' + quoted '\''
  | symbol sign => {sign.text.toList}
  | newline => lineEnd

namespace Pattern

def language : Pattern → Language Char
  | blank => oneOrMore (anyOf [' ', '\t', '\x0c'])
  | comment => anyOf ['#'] * (noneOf ['\n'])∗
  | joinedLine => anyOf ['\\'] * lineEnd
  | token kind => kind.language

theorem between_iff {first last character : Char} :
    (decide (first ≤ character) && decide (character ≤ last)) = true ↔
      first ≤ character ∧ character ≤ last := by
  rw [Bool.and_eq_true_iff, decide_eq_true_iff, decide_eq_true_iff]

theorem isDigit_iff {character : Char} :
    character.isDigit = true ↔ '0' ≤ character ∧ character ≤ '9' :=
  between_iff

theorem isAlpha_iff {character : Char} : character.isAlpha = true ↔
    ('A' ≤ character ∧ character ≤ 'Z') ∨ ('a' ≤ character ∧ character ≤ 'z') := by
  have upper : character.isUpper = true ↔ 'A' ≤ character ∧ character ≤ 'Z' := decide_eq_true_iff
  have lower : character.isLower = true ↔ 'a' ≤ character ∧ character ≤ 'z' := between_iff
  rw [← upper, ← lower]
  exact Bool.or_eq_true_iff

theorem isAlphanum_iff {character : Char} :
    character.isAlphanum = true ↔ character.isAlpha = true ∨ character.isDigit = true :=
  Bool.or_eq_true_iff

theorem digit_eq : digit = one (Char.isDigit · = true) :=
  one_congr fun _ => isDigit_iff.symm

theorem wordStart_eq :
    range 'A' 'Z' + range 'a' 'z' + anyOf ['_'] = one (isWordStart · = true) := by
  rw [range, range, anyOf, one_add, one_add]
  refine one_congr fun character => ?_
  rw [isWordStart, Bool.or_eq_true_iff, isAlpha_iff, beq_iff_eq, List.mem_singleton]

theorem wordPart_eq : range 'A' 'Z' + range 'a' 'z' + range '0' '9' + anyOf ['_'] =
    one (isWordPart · = true) := by
  rw [range, range, range, anyOf, one_add, one_add, one_add]
  refine one_congr fun character => ?_
  rw [isWordPart, Bool.or_eq_true_iff, isAlphanum_iff, isAlpha_iff, isDigit_iff, beq_iff_eq,
    List.mem_singleton]

theorem measures_blank (text : List Char) : Measures blank.language text (gapExtent text) := by
  have gap : anyOf [' ', '\t', '\x0c'] = one (isGap · = true) :=
    one_congr fun character => by simp [isGap, or_assoc]
  rw [language, gap]
  exact .oneOrMore isGap text

theorem head_ne {character : Char} {text : List Char} (other : ∀ rest, text ≠ character :: rest) :
    ∀ first ∈ text.head?, ¬ first ∈ [character] := by
  intro first head same
  obtain ⟨rest, rfl⟩ := List.head?_eq_some_iff.mp head
  exact other rest (by rw [List.mem_singleton.mp same])

theorem measures_comment (text : List Char) :
    Measures comment.language text (commentExtent text) := by
  have inner : noneOf ['\n'] = one ((· != '\n') · = true) := one_congr fun _ => by simp
  rw [language, inner]
  unfold commentExtent
  split
  next rest => exact (Measures.star _ rest).one_mul (by simp) (Language.nil_mem_kstar _)
  next other => exact .one_mul_of_neg (head_ne other)

theorem measures_lineEnd (text : List Char) : Measures lineEnd text (newlineExtent text) := by
  rw [lineEnd, zeroOrOne_mul]
  unfold newlineExtent
  split
  next rest => exact (Measures.one_of_pos (by simp)).add_left (.one_mul_of_neg (by simp))
  next rest =>
    have measures : Measures (anyOf ['\n']) ('\n' :: rest) 1 := .one_of_pos (by simp)
    exact (Measures.one_of_neg (by simp)).add_right
      (measures.one_mul_of_nonempty (by simp) (nil_notMem_one _))
  next plain joined =>
    refine (Measures.one_of_neg (head_ne plain)).add_right ?_
    cases text with
    | nil => exact .one_mul_of_neg (by simp)
    | cons first rest =>
      by_cases mark : first = '\r'
      next =>
        have missing : Measures (anyOf ['\n']) rest 0 :=
          .one_of_neg (head_ne fun behind same => joined behind (by rw [mark, same]))
        exact missing.one_mul_of_nonempty (by simp [mark]) (nil_notMem_one _)
      next => exact .one_mul_of_neg (by simpa using mark)

theorem measures_joinedLine (text : List Char) :
    Measures joinedLine.language text (joinedLineExtent text) := by
  rw [language]
  unfold joinedLineExtent
  split
  next rest =>
    exact (measures_lineEnd rest).one_mul_of_nonempty (by simp) (nil_notMem_mul (nil_notMem_one _))
  next other => exact .one_mul_of_neg (head_ne other)

theorem measures_name (text : List Char) :
    Measures (Token.Kind.language .name) text (nameExtent text) := by
  rw [Token.Kind.language, wordStart_eq, wordPart_eq]
  cases text with
  | nil => exact .one_mul_of_neg (by simp)
  | cons first rest =>
    rw [nameExtent]
    split
    next held => exact (Measures.star _ rest).one_mul held (Language.nil_mem_kstar _)
    next other => exact .one_mul_of_neg (by simpa using other)

theorem measures_anyOf_drop (character : Char) (text : List Char) (place : Nat) :
    Measures (anyOf [character]) (text.drop place)
      (if text[place]? = some character then 1 else 0) := by
  rw [← List.head?_drop]
  split
  next head =>
    obtain ⟨behind, same⟩ := List.head?_eq_some_iff.mp head
    rw [same]
    exact .one_of_pos (List.mem_singleton_self character)
  next other =>
    refine .one_of_neg fun first head same => ?_
    rw [List.mem_singleton.mp same] at head
    exact other head

-- The text inside goes as far as it can, so only the quote behind it can close the string.
theorem measures_quoted {quote : Char} {rest inner : List Char}
    (taken : rest.takeWhile (fun character => character != quote && character != '\n') = inner) :
    Measures (quoted quote) (quote :: rest)
      (if rest[inner.length]? = some quote then inner.length + 2 else 0) := by
  have inside : noneOf [quote, '\n'] =
      one ((fun character => character != quote && character != '\n') · = true) :=
    one_congr fun _ => by simp
  have apart (first : Char) (behind : List Char) (member : first :: behind ∈ anyOf [quote]) :
      (first != quote && first != '\n') = false := by
    obtain ⟨character, same, head⟩ := member
    cases head
    simp [List.mem_singleton.mp same]
  subst taken
  have closing := (measures_anyOf_drop quote rest _).star_mul_of_nonempty apart (nil_notMem_one _)
  have measures := closing.one_mul_of_nonempty (List.mem_singleton_self quote)
    (nil_notMem_mul (nil_notMem_one _))
  rw [quoted, inside, mul_assoc]
  generalize (rest.takeWhile _).length = extent at measures ⊢
  by_cases closed : rest[extent]? = some quote
  next =>
    rw [if_pos closed, if_neg Nat.one_ne_zero, if_neg (Nat.succ_ne_zero _),
      Nat.add_comm 1] at measures
    rw [if_pos closed]
    exact measures
  next =>
    rw [if_neg closed, if_pos rfl, if_pos rfl] at measures
    rw [if_neg closed]
    exact measures

theorem measures_quoted_of_neg {quote : Char} {text : List Char}
    (other : ∀ first ∈ text.head?, first ≠ quote) : Measures (quoted quote) text 0 := by
  rw [quoted, mul_assoc]
  exact .one_mul_of_neg fun first head => by simpa using other first head

theorem measures_string (text : List Char) :
    Measures (Token.Kind.language .string) text (stringExtent text) := by
  rw [Token.Kind.language]
  cases text with
  | nil => exact (measures_quoted_of_neg (by simp)).add_left (measures_quoted_of_neg (by simp))
  | cons quote rest =>
    rw [stringExtent]
    split
    next quotes =>
      rcases quotes with rfl | rfl
      next => exact (measures_quoted rfl).add_left (measures_quoted_of_neg (by simp))
      next => exact (measures_quoted_of_neg (by simp)).add_right (measures_quoted rfl)
    next other =>
      rw [not_or] at other
      exact (measures_quoted_of_neg (by simpa using other.1)).add_left
        (measures_quoted_of_neg (by simpa using other.2))

theorem measures_digits (text : List Char) :
    Measures (oneOrMore digit) text (digitsExtent text) := by
  rw [digit_eq]
  exact .oneOrMore Char.isDigit text

theorem nil_notMem_digits : [] ∉ oneOrMore digit :=
  nil_notMem_one_mul _ _

theorem digitsExtent_of_neg {text : List Char}
    (other : ∀ first ∈ text.head?, first.isDigit = false) : digitsExtent text = 0 := by
  cases text with
  | nil => rfl
  | cons first rest => simp [digitsExtent, other first rfl]

theorem measures_signed (text : List Char) :
    Measures (zeroOrOne (anyOf ['+', '-']) * oneOrMore digit) text
      (if digitsExtent (text.drop (signExtent text)) = 0 then 0
        else signExtent text + digitsExtent (text.drop (signExtent text))) := by
  rw [zeroOrOne_mul]
  cases text with
  | nil => exact (measures_digits []).add_left (.one_mul_of_neg (by simp))
  | cons first rest =>
    rw [signExtent]
    split
    next sign =>
      have unsigned : digitsExtent (first :: rest) = 0 :=
        digitsExtent_of_neg (by rcases sign with rfl | rfl <;> simp)
      have missing := measures_digits (first :: rest)
      rw [unsigned] at missing
      exact missing.add_right
        ((measures_digits rest).one_mul_of_nonempty (by simpa using sign) nil_notMem_digits)
    next plain =>
      rw [List.drop_zero, Nat.zero_add, ite_eq_right_iff.mpr Eq.symm]
      exact (measures_digits (first :: rest)).add_left (.one_mul_of_neg (by simpa using plain))

theorem measures_exponent (text : List Char) : Measures exponent text (exponentExtent text) := by
  rw [exponent, mul_assoc]
  cases text with
  | nil => exact .one_mul_of_neg (by simp)
  | cons mark rest =>
    rw [exponentExtent]
    split
    next held =>
      have measures := (measures_signed rest).one_mul_of_nonempty (List.mem_pair.mpr held)
        (nil_notMem_mul nil_notMem_digits)
      by_cases digitless : digitsExtent (rest.drop (signExtent rest)) = 0
      next =>
        rw [if_pos digitless, if_pos rfl] at measures
        rw [if_pos digitless]
        exact measures
      next =>
        rw [if_neg digitless, if_neg (by omega), ← Nat.add_assoc] at measures
        rw [if_neg digitless]
        exact measures
    next other => exact .one_mul_of_neg (by simpa using other)

theorem isDigit_of_exponent (first : Char) (rest : List Char)
    (member : first :: rest ∈ zeroOrOne exponent) : first.isDigit = false := by
  rw [zeroOrOne, Language.mem_add, Language.mem_one, exponent, mul_assoc] at member
  rcases member with missing | member
  next => cases missing
  next =>
    obtain ⟨mark, behind, held, -, same⟩ := mem_one_mul.mp member
    cases same
    rcases List.mem_pair.mp held with rfl | rfl <;> rfl

theorem nil_mem_zeroOrOne (language : Language Char) : [] ∈ zeroOrOne language :=
  .inl Language.nil_mem_one

def fraction : Language Char :=
  zeroOrOne (anyOf ['.'] * digit∗) * zeroOrOne exponent

theorem fraction_eq :
    fraction = zeroOrOne exponent + anyOf ['.'] * (digit∗ * zeroOrOne exponent) := by
  rw [fraction, zeroOrOne_mul, mul_assoc]

theorem nil_mem_fraction : [] ∈ fraction := by
  rw [fraction_eq]
  exact .inl (nil_mem_zeroOrOne _)

theorem isDigit_of_fraction (first : Char) (rest : List Char) (member : first :: rest ∈ fraction) :
    first.isDigit = false := by
  rw [fraction_eq] at member
  rcases member with member | member
  next => exact isDigit_of_exponent first rest member
  next =>
    obtain ⟨point, behind, held, -, same⟩ := mem_one_mul.mp member
    cases same
    rw [List.mem_singleton.mp held]
    rfl

theorem measures_fraction_of_point (rest : List Char) :
    Measures fraction ('.' :: rest)
      (1 + (digitsExtent rest + exponentExtent (rest.drop (digitsExtent rest)))) := by
  have decimals := (measures_exponent (rest.drop (digitsExtent rest))).zeroOrOne.star_mul
    isDigit_of_exponent (nil_mem_zeroOrOne _)
  have missing : Measures (zeroOrOne exponent) ('.' :: rest) 0 :=
    (measures_exponent ('.' :: rest)).zeroOrOne
  rw [fraction_eq, digit_eq]
  exact missing.add_right (decimals.one_mul (List.mem_singleton_self '.')
    (Language.append_mem_mul (Language.nil_mem_kstar _) (nil_mem_zeroOrOne _)))

theorem measures_fraction_of_no_point {text : List Char} (pointless : ∀ rest, text ≠ '.' :: rest) :
    Measures fraction text (exponentExtent text) := by
  rw [fraction_eq]
  exact (measures_exponent text).zeroOrOne.add_left (.one_mul_of_neg (head_ne pointless))

theorem measures_digits_mul {language : Language Char} {text : List Char} {extent : Nat}
    (behind : Measures language (text.drop (digitsExtent text)) extent)
    (apart : ∀ first rest, first :: rest ∈ language → first.isDigit = false)
    (empty : [] ∈ language) :
    Measures (oneOrMore digit * language) text
      (if digitsExtent text = 0 then 0 else digitsExtent text + extent) := by
  rw [digit_eq]
  exact behind.oneOrMore_mul apart empty

theorem measures_pointed (rest : List Char) :
    Measures (anyOf ['.'] * (oneOrMore digit * zeroOrOne exponent)) ('.' :: rest)
      (if digitsExtent rest = 0 then 0
        else 1 + (digitsExtent rest + exponentExtent (rest.drop (digitsExtent rest)))) := by
  have decimals := measures_digits_mul
    (measures_exponent (rest.drop (digitsExtent rest))).zeroOrOne
    isDigit_of_exponent (nil_mem_zeroOrOne _)
  have nonempty : [] ∉ oneOrMore digit * zeroOrOne exponent := by
    rw [Text.oneOrMore_mul]
    exact nil_notMem_one_mul _ _
  have measures := decimals.one_mul_of_nonempty (List.mem_singleton_self '.') nonempty
  split
  next digitless =>
    rw [if_pos digitless, if_pos rfl] at measures
    exact measures
  next digits =>
    rw [if_neg digits, if_neg (by omega)] at measures
    exact measures

theorem measures_number (text : List Char) :
    Measures (Token.Kind.language .number) text (numberExtent text) := by
  rw [Token.Kind.language, mul_assoc, mul_assoc, ← fraction]
  have digitless (rest : List Char) (starts : text = '.' :: rest) : digitsExtent text = 0 :=
    digitsExtent_of_neg (by simp [starts])
  by_cases point : ∃ rest, text.drop (digitsExtent text) = '.' :: rest
  next =>
    obtain ⟨rest, point⟩ := point
    have behind := measures_fraction_of_point rest
    rw [← point] at behind
    have leading := measures_digits_mul behind isDigit_of_fraction nil_mem_fraction
    rw [numberExtent_of_point point]
    by_cases whole : digitsExtent text = 0
    next =>
      have pointed := measures_pointed rest
      rw [whole, List.drop_zero] at point
      rw [if_pos whole] at leading
      rw [← point] at pointed
      rw [whole, Nat.zero_add, Nat.zero_add, Nat.add_assoc]
      exact leading.add_right pointed
    next =>
      rw [if_neg whole, ← Nat.add_assoc, ← Nat.add_assoc] at leading
      rw [if_neg (by omega)]
      exact leading.add_left
        (.one_mul_of_neg (head_ne fun rest starts => whole (digitless rest starts)))
  next =>
    have pointless := not_exists.mp point
    rw [numberExtent_of_no_point pointless]
    have leading := measures_digits_mul (measures_fraction_of_no_point pointless)
      isDigit_of_fraction nil_mem_fraction
    refine leading.add_left (.one_mul_of_neg (head_ne fun rest starts => pointless rest ?_))
    rw [digitless rest starts, List.drop_zero, starts]

theorem measures (pattern : Pattern) (text : List Char) :
    Measures pattern.language text (pattern.extent text) := by
  cases pattern with
  | blank => exact measures_blank text
  | comment => exact measures_comment text
  | joinedLine => exact measures_joinedLine text
  | token kind =>
    cases kind with
    | keyword word => exact .singleton word.text.toList text
    | symbol sign => exact .singleton sign.text.toList text
    | name => exact measures_name text
    | number => exact measures_number text
    | string => exact measures_string text
    | newline => exact measures_lineEnd text

end Pattern

end StackScript
