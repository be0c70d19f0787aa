import Mathlib.Order.CompletePartialOrder
import StackScript.Proofs.LongestMatch

set_option autoImplicit false

namespace StackScript

open scoped Computability

open Text

namespace Text

def spaceless : Language Char :=
  (noneOf [' '])∗

theorem mem_spaceless {text : List Char} : text ∈ spaceless ↔ ' ' ∉ text := by
  rw [spaceless, noneOf, mem_star_one]
  constructor
  next => exact fun plain member => plain ' ' member List.mem_cons_self
  next =>
    rintro absent character member same
    exact absent (List.mem_singleton.mp same ▸ member)

theorem one_le_spaceless {holds : Char → Prop} (other : ¬ holds ' ') : one holds ≤ spaceless := by
  rintro text ⟨character, held, rfl⟩
  refine mem_spaceless.mpr fun member => other ?_
  rwa [List.mem_singleton.mp member]

theorem mul_le_spaceless {language other : Language Char} (first : language ≤ spaceless)
    (second : other ≤ spaceless) : language * other ≤ spaceless :=
  (mul_le_mul' first second).trans (kstar_mul_kstar _).le

theorem star_le_spaceless {language : Language Char} (within : language ≤ spaceless) :
    language∗ ≤ spaceless :=
  (kstar_mono within).trans (kstar_idem _).le

theorem zeroOrOne_le_spaceless {language : Language Char} (within : language ≤ spaceless) :
    zeroOrOne language ≤ spaceless :=
  add_le one_le_kstar within

theorem oneOrMore_le_spaceless {language : Language Char} (within : language ≤ spaceless) :
    oneOrMore language ≤ spaceless :=
  mul_le_spaceless within (star_le_spaceless within)

theorem exponent_le_spaceless : exponent ≤ spaceless :=
  mul_le_spaceless (mul_le_spaceless (one_le_spaceless (by decide))
    (zeroOrOne_le_spaceless (one_le_spaceless (by decide))))
    (oneOrMore_le_spaceless (one_le_spaceless (by decide)))

theorem lineEnd_le_spaceless : lineEnd ≤ spaceless :=
  mul_le_spaceless (zeroOrOne_le_spaceless (one_le_spaceless (by decide)))
    (one_le_spaceless (by decide))

end Text

theorem Token.Kind.language_le_spaceless {kind : Token.Kind} (other : kind ≠ .string) :
    kind.language ≤ spaceless := by
  cases kind with
  | keyword word =>
    rintro text rfl
    apply mem_spaceless.mpr
    cases word <;> decide
  | symbol sign =>
    rintro text rfl
    apply mem_spaceless.mpr
    cases sign <;> decide
  | name =>
    rw [language, Pattern.wordStart_eq, Pattern.wordPart_eq]
    exact mul_le_spaceless (one_le_spaceless (by decide))
      (star_le_spaceless (one_le_spaceless (by decide)))
  | number =>
    have digits : digit ≤ spaceless := one_le_spaceless (by decide)
    have point : anyOf ['.'] ≤ spaceless := one_le_spaceless (by decide)
    have scale := zeroOrOne_le_spaceless exponent_le_spaceless
    exact add_le
      (mul_le_spaceless (mul_le_spaceless (oneOrMore_le_spaceless digits)
        (zeroOrOne_le_spaceless (mul_le_spaceless point (star_le_spaceless digits)))) scale)
      (mul_le_spaceless (mul_le_spaceless point (oneOrMore_le_spaceless digits)) scale)
  | string => exact absurd rfl other
  | newline => exact lineEnd_le_spaceless

namespace Pattern

theorem stringExtent_of_quoted {quote : Char} (isQuote : quote = '"' ∨ quote = '\'')
    {piece : List Char} (member : piece ∈ quoted quote) (rest : List Char) :
    stringExtent (piece ++ rest) = piece.length := by
  rw [quoted, mul_assoc] at member
  obtain ⟨first, behind, opens, inside, rfl⟩ := mem_one_mul.mp member
  obtain ⟨inner, plain, -, ⟨last, closes, rfl⟩, rfl⟩ := Language.mem_mul.mp inside
  obtain rfl : first = quote := List.mem_singleton.mp opens
  obtain rfl : last = first := List.mem_singleton.mp closes
  have all : ∀ character ∈ inner, (character != last && character != '\n') = true := by
    intro character found
    have outside := mem_star_one.mp plain character found
    simpa using outside
  have taken : (inner ++ last :: rest).takeWhile
      (fun character => character != last && character != '\n') = inner := by
    rw [List.takeWhile_append_of_pos all, List.takeWhile_cons_of_neg (by simp), List.append_nil]
  have whole : last :: (inner ++ [last]) ++ rest = last :: (inner ++ last :: rest) := by simp
  rw [whole, stringExtent, if_pos isQuote]
  simp [taken]

theorem stringExtent_append {piece : List Char} (member : piece ∈ Token.Kind.language .string)
    (rest : List Char) : stringExtent (piece ++ rest) = piece.length := by
  rcases member with double | single
  next => exact stringExtent_of_quoted (.inl rfl) double rest
  next => exact stringExtent_of_quoted (.inr rfl) single rest

theorem extent_le_of_spaceless {pattern : Pattern} (within : pattern.language ≤ spaceless)
    (piece rest : List Char) : pattern.extent (piece ++ ' ' :: rest) ≤ piece.length := by
  refine Nat.le_of_not_lt fun longer => ?_
  have member := (pattern.measures (piece ++ ' ' :: rest)).covers (Nat.zero_lt_of_lt longer)
  refine mem_spaceless.mp (within member) (List.mem_iff_getElem?.mpr ⟨piece.length, ?_⟩)
  rw [List.getElem?_take_of_lt longer]
  simp

end Pattern

structure Part.Whole (part : Part) : Prop where
  nonempty : part.2 ≠ []
  longest : Pattern.longest part.2 = some (.token part.1, part.2.length)

namespace Part.Whole

variable {part : Part}

theorem longest_append_nil (whole : part.Whole) :
    Pattern.longest (part.2 ++ []) = some (.token part.1, part.2.length) := by
  rw [List.append_nil]
  exact whole.longest

theorem fits (whole : part.Whole) : part.2 ∈ part.1.language :=
  Pattern.mem_language_of_longest whole.longest_append_nil

theorem sort_eq (whole : part.Whole) {first : Char} {others : List Char}
    (same : part.2 = first :: others) {pattern : Pattern} (begins : pattern.starts first = true) :
    pattern.sort = (Pattern.token part.1).sort := by
  have member : first :: others ∈ (Pattern.token part.1).language := same ▸ whole.fits
  rw [Pattern.sort_eq_sortOf begins, Pattern.sort_eq_sortOf (Pattern.starts_of_mem member)]

theorem noGap (whole : part.Whole) (rest : List Char) :
    ∀ next ∈ (part.2 ++ rest).head?, Pattern.isGap next = false := by
  obtain ⟨first, others, same⟩ := List.exists_cons_of_ne_nil whole.nonempty
  intro next head
  obtain rfl : first = next := by simpa [same] using head
  cases begins : Pattern.isGap first with
  | false => rfl
  | true =>
    have sort : Pattern.blank.sort = (Pattern.token part.1).sort := whole.sort_eq same begins
    cases kind : part.1 <;> rw [kind] at sort <;> cases sort

theorem extent_le (whole : part.Whole) (pattern : Pattern) (rest : List Char) :
    pattern.extent (part.2 ++ ' ' :: rest) ≤ part.2.length := by
  obtain ⟨first, others, same⟩ := List.exists_cons_of_ne_nil whole.nonempty
  cases begins : pattern.starts first with
  | false =>
    rw [same, List.cons_append, Pattern.extent_eq_zero _ begins]
    exact Nat.zero_le _
  | true =>
    have sort := whole.sort_eq same begins
    cases pattern with
    | blank | comment | joinedLine => cases kind : part.1 <;> rw [kind] at sort <;> cases sort
    | token other =>
      by_cases string : other = .string
      next =>
        subst string
        have isString : part.1 = .string := by
          cases kind : part.1 <;> rw [kind] at sort <;> first | rfl | cases sort
        exact (Pattern.stringExtent_append (isString ▸ whole.fits) _).le
      next =>
        have plain : (Pattern.token other).language ≤ spaceless :=
          Token.Kind.language_le_spaceless string
        exact Pattern.extent_le_of_spaceless plain part.2 rest

theorem longest_append_space (whole : part.Whole) (rest : List Char) :
    Pattern.longest (part.2 ++ ' ' :: rest) = some (.token part.1, part.2.length) := by
  rw [← whole.longest_append_nil]
  refine Pattern.longestOf_congr fun pattern _ => ?_
  have cut : pattern.extent (part.2 ++ []) = pattern.extent (part.2 ++ ([] ++ ' ' :: rest)) :=
    pattern.extent_cut (whole.extent_le pattern rest)
  exact cut.symm

end Part.Whole

namespace Part

def spaced (parts : List Part) : List Char :=
  [' '].intercalate (parts.map (·.2))

@[simp] theorem spaced_singleton (part : Part) : spaced [part] = part.2 :=
  List.intercalate_singleton

@[simp] theorem spaced_cons_cons (first next : Part) (rest : List Part) :
    spaced (first :: next :: rest) = first.2 ++ ([' '] ++ spaced (next :: rest)) := by
  rw [spaced, List.map_cons, List.map_cons, List.intercalate_cons_cons, List.append_assoc]
  rfl

theorem exists_spaced_eq (first : Part) (rest : List Part) :
    ∃ behind, spaced (first :: rest) = first.2 ++ behind := by
  cases rest with
  | nil => exact ⟨[], by simp⟩
  | cons next others => exact ⟨_, spaced_cons_cons first next others⟩

end Part

theorem Prints.spaced {parts : List Part} (whole : ∀ part ∈ parts, part.Whole) :
    Prints (Part.spaced parts) parts [] := by
  induction parts with
  | nil => exact .nil []
  | cons first rest ih =>
    rw [List.forall_mem_cons] at whole
    cases rest with
    | nil =>
      rw [Part.spaced_singleton]
      exact .token whole.1.nonempty whole.1.longest_append_nil
    | cons next others =>
      obtain ⟨behind, starts⟩ := Part.exists_spaced_eq next others
      have token : Prints first.2 [first] ([' '] ++ Part.spaced (next :: others) ++ []) :=
        .token whole.1.nonempty (whole.1.longest_append_space _)
      have space : Prints [' '] [] (Part.spaced (next :: others) ++ []) := by
        rw [starts, List.append_assoc]
        exact .gap ((whole.2 next List.mem_cons_self).noGap _)
      rw [Part.spaced_cons_cons]
      exact token.append (space.append (ih whole.2))

namespace Token

theorem Scans.whole {source before text : List Char} {offset : Nat} {tokens : List Token}
    (scans : Scans offset text tokens) (same : source = before ++ text)
    (start : offset = Text.byteLength before) : ∀ token ∈ tokens, (token.part source).Whole := by
  induction scans generalizing before with
  | nil offset => simp
  | @step offset piece rest pattern tokens nonempty longest behind ih =>
    rw [← List.append_assoc] at same
    have later := ih same (by rw [Text.byteLength_append, start])
    cases pattern with
    | token kind =>
      intro token member
      rcases List.mem_cons.mp member with rfl | member
      next =>
        have alone : Pattern.longest (piece ++ []) = some (.token kind, piece.length) :=
          Pattern.longest_cut longest
        rw [List.append_nil] at alone
        subst same start
        rw [part, Span.slice_append]
        exact ⟨nonempty, alone⟩
      next => exact later token member
    | _ => exact later

def respaced (source : List Char) (tokens : List Token) : List Char :=
  [' '].intercalate (tokens.map fun token => token.span.slice source)

/-- Spacing does not change the tokens: with single spaces between them, their texts are cut into
tokens of the same kinds and texts. -/
theorem ofSource_respaced {source : List Char} {tokens : List Token}
    (scanned : ofSource source = .ok tokens) :
    ∃ others, ofSource (respaced source tokens) = .ok others ∧
      others.map (part (respaced source tokens)) = tokens.map (part source) := by
  have whole : ∀ taken ∈ tokens.map (part source), taken.Whole := by
    rw [List.forall_mem_map]
    exact (ofSource_eq_ok.mp scanned).whole (List.nil_append source).symm rfl
  have same : Part.spaced (tokens.map (part source)) = respaced source tokens := by
    rw [Part.spaced, List.map_map]
    rfl
  rw [← same]
  exact (Prints.spaced whole).exists_ofSource

theorem ofSource_respaced_power :
    ∃ tokens others, ofSource "x=1.e3**'a  b'\\\n//not_y\r\n# c".toList = .ok tokens ∧
      respaced "x=1.e3**'a  b'\\\n//not_y\r\n# c".toList tokens =
        "x = 1.e3 ** 'a  b' // not_y \r\n".toList ∧
      ofSource "x = 1.e3 ** 'a  b' // not_y \r\n".toList = .ok others ∧
      others.map (part "x = 1.e3 ** 'a  b' // not_y \r\n".toList) =
        tokens.map (part "x=1.e3**'a  b'\\\n//not_y\r\n# c".toList) := by
  have spaced : (ofSource "x=1.e3**'a  b'\\\n//not_y\r\n# c".toList).toOption.map
      (respaced "x=1.e3**'a  b'\\\n//not_y\r\n# c".toList) =
        some "x = 1.e3 ** 'a  b' // not_y \r\n".toList := by
    decide +kernel
  obtain ⟨tokens, found, same⟩ := Option.map_eq_some_iff.mp spaced
  have scanned := eq_ok_of_toOption found
  obtain ⟨others, scannedAgain, parts⟩ := ofSource_respaced scanned
  rw [same] at scannedAgain parts
  exact ⟨tokens, others, scanned, same, scannedAgain, parts⟩

end Token

end StackScript
