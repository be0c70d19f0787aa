import StackScript.Proofs.Extent
import StackScript.Proofs.Languages
import StackScript.Proofs.Seam

set_option autoImplicit false

namespace StackScript

open scoped Computability

namespace Pattern

theorem mem_all (pattern : Pattern) : pattern ∈ all := by
  cases pattern with
  | token kind =>
    cases kind with
    | keyword word => simp [all, word.mem_all]
    | symbol sign => simp [all, sign.mem_all]
    | _ => simp [all]
  | _ => simp [all]

theorem length_le_extent {pattern : Pattern} {piece : List Char} (member : piece ∈ pattern.language)
    (rest : List Char) : piece.length ≤ pattern.extent (piece ++ rest) :=
  (pattern.measures (piece ++ rest)).most piece rest member rfl

theorem extent_le_of_take {pattern : Pattern} {text other : List Char}
    (same : text.take (pattern.extent text) = other.take (pattern.extent text)) :
    pattern.extent text ≤ pattern.extent other := by
  rcases Nat.eq_zero_or_pos (pattern.extent text) with nothing | positive
  next =>
    rw [nothing]
    exact Nat.zero_le _
  next =>
    have member := (pattern.measures text).covers positive
    have length := List.length_take_of_le (extent_le pattern text)
    have within := length_le_extent member (other.drop (pattern.extent text))
    rwa [length, same, List.take_append_drop] at within

-- What matches within a piece still does if the text ends behind it, and nothing longer comes up.
theorem extent_cut (pattern : Pattern) {piece rest after : List Char}
    (short : pattern.extent (piece ++ (rest ++ after)) ≤ piece.length) :
    pattern.extent (piece ++ rest) = pattern.extent (piece ++ (rest ++ after)) := by
  apply Nat.le_antisymm
  next =>
    apply extent_le_of_take
    rw [← List.append_assoc, List.take_append_of_le_length (extent_le pattern (piece ++ rest))]
  next =>
    apply extent_le_of_take
    rw [List.take_append_of_le_length short, List.take_append_of_le_length short]

theorem longest_cut {piece rest after : List Char} {pattern : Pattern}
    (found : longest (piece ++ (rest ++ after)) = some (pattern, piece.length)) :
    longest (piece ++ rest) = some (pattern, piece.length) := by
  obtain ⟨-, -, -, most⟩ := longestOf_eq_some found
  rw [← found]
  exact longestOf_congr fun other member => other.extent_cut (most other member)

theorem eq_nil_of_longest {text piece rest : List Char} {pattern : Pattern}
    (nothing : longest text = none) (member : piece ∈ pattern.language)
    (same : text = piece ++ rest) : piece = [] := by
  have within := length_le_extent member rest
  rw [← same, longestOf_eq_none.mp nothing pattern pattern.mem_all] at within
  exact List.eq_nil_of_length_eq_zero (Nat.le_zero.mp within)

-- The pattern that stands for all those which start with the same characters.
def sort : Pattern → Pattern
  | token (.keyword _) => token .name
  | token (.symbol _) => token (.symbol .equal)
  | pattern => pattern

def sortOf (first : Char) : Pattern :=
  if isWordStart first then token .name
  else if first.isDigit then token .number
  else if isGap first then blank
  else if first = '#' then comment
  else if first = '\\' then joinedLine
  else if first = '.' then token .number
  else if first = '"' ∨ first = '\'' then token .string
  else if first = '\n' ∨ first = '\r' then token .newline
  else token (.symbol .equal)

theorem sort_eq_sortOf {pattern : Pattern} {first : Char} (begins : pattern.starts first = true) :
    pattern.sort = sortOf first := by
  cases pattern with
  | blank =>
    simp only [starts, isGap, Bool.or_eq_true, beq_iff_eq] at begins
    rcases begins with (rfl | rfl) | rfl <;> rfl
  | comment =>
    obtain rfl : first = '#' := by simpa [starts] using begins
    rfl
  | joinedLine =>
    obtain rfl : first = '\\' := by simpa [starts] using begins
    rfl
  | token kind =>
    cases kind with
    | keyword word =>
      rw [sortOf, if_pos (isWordStart_of_keyword (by simpa [starts] using begins))]
      rfl
    | name =>
      have word : isWordStart first = true := begins
      rw [sortOf, if_pos word]
      rfl
    | number =>
      simp only [starts, Bool.or_eq_true, decide_eq_true_eq] at begins
      rcases begins with digit | rfl
      next =>
        rw [sortOf, if_neg (by simp [isWordStart_of_isDigit digit]), if_pos digit]
        rfl
      next => rfl
    | string =>
      simp only [starts, Bool.or_eq_true, decide_eq_true_eq] at begins
      rcases begins with rfl | rfl <;> rfl
    | symbol sign =>
      simp only [starts, decide_eq_true_eq] at begins
      cases sign <;> cases begins <;> rfl
    | newline =>
      simp only [starts, Bool.or_eq_true, decide_eq_true_eq] at begins
      rcases begins with rfl | rfl <;> rfl

theorem starts_of_mem {pattern : Pattern} {first : Char} {rest : List Char}
    (member : first :: rest ∈ pattern.language) : pattern.starts first = true := by
  cases begins : pattern.starts first with
  | true => rfl
  | false =>
    have within := length_le_extent member []
    rw [List.append_nil, extent_eq_zero rest begins] at within
    exact absurd within (Nat.not_succ_le_zero _)

theorem eq_or_keyword {kind : Token.Kind} {pattern : Pattern} {text : List Char}
    (nonempty : text ≠ []) (member : text ∈ kind.language) (other : text ∈ pattern.language) :
    pattern = token kind ∨ (∃ word, kind = .keyword word ∧ pattern = token .name) ∨
      ∃ word, kind = .name ∧ pattern = token (.keyword word) := by
  have same : pattern.sort = (token kind).sort := by
    cases text with
    | nil => exact absurd rfl nonempty
    | cons first rest =>
      have begins : (token kind).starts first = true := starts_of_mem member
      rw [sort_eq_sortOf (starts_of_mem other), sort_eq_sortOf begins]
  cases pattern with
  | blank | comment | joinedLine => cases kind <;> cases same
  | token found =>
    cases found with
    | keyword word =>
      cases kind with
      | keyword another =>
        have spelled : word.text.toList = another.text.toList := other.symm.trans member
        rw [Keyword.text_injective (String.toList_injective spelled)]
        exact .inl rfl
      | name => exact .inr (.inr ⟨word, rfl, rfl⟩)
      | _ => cases same
    | name =>
      cases kind with
      | keyword word => exact .inr (.inl ⟨word, rfl, rfl⟩)
      | name => exact .inl rfl
      | _ => cases same
    | symbol sign =>
      cases kind with
      | symbol another =>
        have spelled : sign.text.toList = another.text.toList := other.symm.trans member
        rw [Symbol.text_injective (String.toList_injective spelled)]
        exact .inl rfl
      | _ => cases same
    | number | string | newline => cases kind <;> first | exact .inl rfl | cases same

theorem mem_language_of_longest {piece rest : List Char} {pattern : Pattern}
    (found : longest (piece ++ rest) = some (pattern, piece.length)) :
    piece ∈ pattern.language := by
  obtain ⟨-, covered, positive, -⟩ := longestOf_eq_some found
  have member := (pattern.measures (piece ++ rest)).covers (by rwa [covered])
  rwa [covered, List.take_left] at member

def skipped : Language Char :=
  blank.language + comment.language + joinedLine.language

theorem append_mem_star_skipped {gap piece : List Char} (blank : gap ∈ skipped∗)
    (skip : piece ∈ skipped) : gap ++ piece ∈ skipped∗ := by
  have once : skipped ≤ skipped∗ := le_kstar
  have member := Language.append_mem_mul blank (once skip)
  rwa [kstar_mul_kstar] at member

end Pattern

def Span.Covers (source : List Char) (span : Span) (before text after : List Char) : Prop :=
  source = before ++ text ++ after ∧
    span = ⟨Text.byteLength before, Text.byteLength before + Text.byteLength text⟩

namespace Token

/-- Why a token of the kind is cut off a text: no pattern goes further, and of the patterns that go
as far it is the only one or a keyword. -/
structure Kind.Takes (kind : Kind) (text after : List Char) : Prop where
  fits : text ∈ kind.language
  longest : ∀ (pattern : Pattern) (piece rest : List Char), piece ∈ pattern.language →
    text ++ after = piece ++ rest → piece.length ≤ text.length
  chosen : ∀ pattern : Pattern, text ∈ pattern.language →
    pattern = .token kind ∨ pattern = .token .name ∧ ∃ word, kind = .keyword word

theorem Kind.takes_of_longest {kind : Kind} {text after : List Char} (nonempty : text ≠ [])
    (found : Pattern.longest (text ++ after) = some (.token kind, text.length)) :
    kind.Takes text after where
  fits := Pattern.mem_language_of_longest found
  longest := by
    intro pattern piece rest member same
    obtain ⟨-, -, -, most⟩ := Pattern.longestOf_eq_some found
    have within := Pattern.length_le_extent member rest
    rw [← same] at within
    exact Nat.le_trans within (most pattern pattern.mem_all)
  chosen := by
    intro pattern member
    have fits : text ∈ kind.language := Pattern.mem_language_of_longest found
    rcases Pattern.eq_or_keyword nonempty fits member with
      same | ⟨word, keyword, name⟩ | ⟨word, rfl, rfl⟩
    next => exact .inl same
    next => exact .inr ⟨name, word, keyword⟩
    next =>
      -- The keyword comes first among the patterns, so it would have been taken.
      have shorter := Pattern.keyword_extent_lt found word
      have within := Pattern.length_le_extent member after
      exact absurd within (Nat.not_le_of_lt shorter)

/-- What stands before the tokens, between them and behind them. -/
def gaps (stop : Nat) : Nat → List Token → List Span
  | start, [] => [⟨start, stop⟩]
  | start, token :: rest => ⟨start, token.span.start⟩ :: gaps stop token.span.stop rest

structure Tiles (source : List Char) (tokens : List Token) : Prop where
  taken : ∀ token ∈ tokens, ∃ before text after, token.span.Covers source before text after ∧
    text ≠ [] ∧ token.kind.Takes text after
  ordered : tokens.Pairwise fun first second => first.span.stop ≤ second.span.start
  skipped : ∀ gap ∈ gaps (Text.byteLength source) 0 tokens, ∃ before text after,
    gap.Covers source before text after ∧ text ∈ Pattern.skipped∗

namespace Scans

variable {source before text : List Char} {offset : Nat} {tokens : List Token}

theorem taken (scans : Scans offset text tokens) (same : source = before ++ text)
    (start : offset = Text.byteLength before) :
    ∀ token ∈ tokens, ∃ before text after, token.span.Covers source before text after ∧
      text ≠ [] ∧ token.kind.Takes text after := by
  induction scans generalizing before with
  | nil offset => simp
  | @step offset piece rest pattern tokens nonempty longest behind ih =>
    rw [← List.append_assoc] at same
    have later := ih same (by rw [Text.byteLength_append, start])
    cases pattern with
    | token kind =>
      intro token member
      rcases List.mem_cons.mp member with rfl | member
      next =>
        subst start
        exact ⟨before, piece, rest, ⟨same, rfl⟩, nonempty, Kind.takes_of_longest nonempty longest⟩
      next => exact later token member
    | _ => exact later

-- Since the last token a gap has been read, which grows until the next token.
theorem skipped {gap : List Char} (scans : Scans offset text tokens)
    (same : source = before ++ gap ++ text) (start : offset = Text.byteLength (before ++ gap))
    (blank : gap ∈ Pattern.skipped∗) :
    ∀ span ∈ gaps (Text.byteLength source) (Text.byteLength before) tokens,
      ∃ before text after, span.Covers source before text after ∧ text ∈ Pattern.skipped∗ := by
  induction scans generalizing before gap with
  | nil offset =>
    intro span member
    refine ⟨before, gap, [], ⟨same, ?_⟩, blank⟩
    rw [List.mem_singleton.mp member, same, List.append_nil, Text.byteLength_append]
  | @step offset piece rest pattern tokens nonempty longest behind ih =>
    have longer (skip : piece ∈ Pattern.skipped) :
        ∀ span ∈ gaps (Text.byteLength source) (Text.byteLength before) tokens,
          ∃ before text after, span.Covers source before text after ∧ text ∈ Pattern.skipped∗ := by
      exact @ih before (gap ++ piece) (by simp [same]) (by simp [start, Nat.add_assoc])
        (Pattern.append_mem_star_skipped blank skip)
    have fits := Pattern.mem_language_of_longest longest
    cases pattern with
    | blank => exact longer (.inl (.inl fits))
    | comment => exact longer (.inl (.inr fits))
    | joinedLine => exact longer (.inr fits)
    | token kind =>
      intro span member
      rcases List.mem_cons.mp member with rfl | member
      next =>
        exact ⟨before, gap, piece ++ rest, ⟨same, by rw [start, Text.byteLength_append]⟩, blank⟩
      next =>
        have stop : offset + Text.byteLength piece = Text.byteLength (before ++ gap ++ piece) := by
          rw [Text.byteLength_append _ piece, start]
        refine @ih (before ++ gap ++ piece) [] (by simp [same]) (by simp [stop])
          (Language.nil_mem_kstar _) span ?_
        rwa [← stop]

theorem tiles (scans : Scans 0 source tokens) : Tiles source tokens := by
  have whole : source = [] ++ [] ++ source := rfl
  exact ⟨scans.taken whole rfl, (scans.ordered whole rfl).2,
    scans.skipped whole rfl (Language.nil_mem_kstar _)⟩

end Scans

-- The text before the place of the failure is cut as before: no match there reaches further.
theorem exists_of_scan_error {offset failed : Nat} {text : List Char}
    (scanned : scan offset text = .error failed) :
    ∃ done first rest tokens, text = done ++ first :: rest ∧
      failed = offset + Text.byteLength done ∧ Pattern.longest (first :: rest) = none ∧
      Scans offset done tokens := by
  fun_induction scan offset text with
  | case1 => cases scanned
  | case2 offset first rest nothing =>
    cases scanned
    exact ⟨[], first, rest, [], rfl, rfl, nothing, .nil _⟩
  | case3 offset first rest pattern extent found stop problem deeper ih =>
    cases scanned
    obtain ⟨piece, left, nonempty, cut, rfl, taken, dropped⟩ := cut_of_longest found
    obtain ⟨done, next, behind, tokens, split, failed, nothing, scans⟩ := ih deeper
    simp only [stop, taken] at failed scans
    rw [← dropped, split] at cut
    rw [cut] at found ⊢
    refine ⟨piece ++ done, next, behind, _, (List.append_assoc _ _ _).symm, ?_, nothing,
      .step nonempty (Pattern.longest_cut found) scans⟩
    rw [failed, Text.byteLength_append, Nat.add_assoc]
  | case4 => cases scanned

/-- The tokens tile the source, or they tile it up to a character at which no pattern matches. -/
theorem ofSource_tiles (source : List Char) :
    (∀ tokens, ofSource source = .ok tokens → Tiles source tokens) ∧
      ∀ error, ofSource source = .error error → ∃ before character after tokens,
        source = before ++ character :: after ∧ error.offset = Text.byteLength before ∧
        error.character = character ∧
        (∀ (pattern : Pattern) (piece rest : List Char), piece ∈ pattern.language →
          character :: after = piece ++ rest → piece = []) ∧
        ofSource before = .ok tokens ∧ Tiles before tokens := by
  constructor
  next =>
    intro tokens scanned
    exact (ofSource_eq_ok.mp scanned).tiles
  next =>
    intro error scanned
    obtain ⟨failed, stuck, rfl⟩ := mapError_eq_error.mp scanned
    obtain ⟨before, character, after, tokens, rfl, rfl, nothing, scans⟩ :=
      exists_of_scan_error stuck
    refine ⟨before, character, after, tokens, rfl, Nat.zero_add _, ?_, ?_,
      ofSource_eq_ok.mpr scans, scans.tiles⟩
    next =>
      rw [LexicalError.ofOffset, Nat.zero_add, Text.cut?_byteLength]
      rfl
    next =>
      intro pattern piece rest member same
      exact Pattern.eq_nil_of_longest nothing member same

theorem ofSource_tiles_up_to_dollar :
    (∃ tokens, ofSource "a=1e5#b\n".toList = .ok tokens ∧ tokens.length = 4 ∧
      Tiles "a=1e5#b\n".toList tokens) ∧
    ∃ error tokens, ofSource "\"é\" $ 1".toList = .error error ∧ error.offset = 5 ∧
      error.character = '$' ∧
      (∀ (pattern : Pattern) (piece rest : List Char), piece ∈ pattern.language →
        "$ 1".toList = piece ++ rest → piece = []) ∧
      ofSource "\"é\" ".toList = .ok tokens ∧ Tiles "\"é\" ".toList tokens := by
  constructor
  next =>
    have scans : (ofSource "a=1e5#b\n".toList).toOption.map List.length = some 4 := by
      decide +kernel
    obtain ⟨tokens, found, length⟩ := Option.map_eq_some_iff.mp scans
    have scanned := eq_ok_of_toOption found
    exact ⟨tokens, scanned, length, (ofSource_tiles _).1 tokens scanned⟩
  next =>
    have fails : ofSource "\"é\" $ 1".toList = .error ⟨5, ⟨1, 5⟩, '$', "\"é\" $ 1"⟩ := by
      decide +kernel
    obtain ⟨before, character, after, tokens, split, offset, -, nothing, scanned, tiles⟩ :=
      (ofSource_tiles _).2 _ fails
    have cut := Text.cut?_byteLength before (character :: after)
    have place : Text.cut? 5 "\"é\" $ 1".toList = some ("\"é\" ".toList, "$ 1".toList) := by
      decide +kernel
    rw [← split, ← offset, place, Option.some.injEq, Prod.mk.injEq] at cut
    rw [← cut.2] at nothing
    rw [← cut.1] at scanned tiles
    exact ⟨_, tokens, fails, rfl, rfl, nothing, scanned, tiles⟩

end Token

end StackScript
