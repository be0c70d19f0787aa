import StackScript.Proofs.Tiling

set_option autoImplicit false

namespace StackScript

namespace Pattern

theorem takeWhile_seam {property : Char → Bool} (stops : property '\n' = false)
    (text rest : List Char) :
    (text ++ '\n' :: rest).takeWhile property = text.takeWhile property := by
  induction text with
  | nil => simp [stops]
  | cons first behind ih =>
    by_cases inside : property first = true
    next => simp [inside, ih]
    next => simp [inside]

theorem drop_seam {extent : Nat} {text : List Char} (within : extent ≤ text.length)
    (rest : List Char) : (text ++ '\n' :: rest).drop extent = text.drop extent ++ '\n' :: rest :=
  List.drop_append_of_le_length within

theorem digitsExtent_seam (text rest : List Char) :
    digitsExtent (text ++ '\n' :: rest) = digitsExtent text := by
  rw [digitsExtent, takeWhile_seam rfl, digitsExtent]

theorem signExtent_seam (text rest : List Char) :
    signExtent (text ++ '\n' :: rest) = signExtent text := by
  cases text <;> rfl

theorem exponentExtent_seam (text rest : List Char) :
    exponentExtent (text ++ '\n' :: rest) = exponentExtent text := by
  cases text with
  | nil => rfl
  | cons mark behind =>
    simp only [List.cons_append, exponentExtent, signExtent_seam, drop_seam (signExtent_le behind),
      digitsExtent_seam]

theorem numberExtent_seam (text rest : List Char) :
    numberExtent (text ++ '\n' :: rest) = numberExtent text := by
  have dropped : (text ++ '\n' :: rest).drop (digitsExtent (text ++ '\n' :: rest)) =
      text.drop (digitsExtent text) ++ '\n' :: rest := by
    rw [digitsExtent_seam, drop_seam (digitsExtent_le text)]
  by_cases point : ∃ behind, text.drop (digitsExtent text) = '.' :: behind
  next =>
    obtain ⟨behind, point⟩ := point
    rw [point, List.cons_append] at dropped
    rw [numberExtent_of_point dropped, numberExtent_of_point point, digitsExtent_seam,
      digitsExtent_seam, drop_seam (digitsExtent_le behind), exponentExtent_seam]
  next =>
    have pointless : ∀ behind,
        (text ++ '\n' :: rest).drop (digitsExtent (text ++ '\n' :: rest)) ≠ '.' :: behind := by
      intro behind same
      rw [dropped] at same
      rcases List.append_eq_cons_iff.mp same with ⟨-, seam⟩ | ⟨inner, starts, -⟩
      next => simp at seam
      next => exact point ⟨inner, starts⟩
    rw [numberExtent_of_no_point pointless, numberExtent_of_no_point (not_exists.mp point), dropped,
      digitsExtent_seam, exponentExtent_seam]

theorem stringExtent_seam (text rest : List Char) :
    stringExtent (text ++ '\n' :: rest) = stringExtent text := by
  cases text with
  | nil => rfl
  | cons quote behind =>
    simp only [List.cons_append, stringExtent]
    by_cases quotes : quote = '"' ∨ quote = '\''
    next =>
      rw [takeWhile_seam (by simp)]
      generalize inner : behind.takeWhile _ = text
      -- A quote that stays open on its line is not closed by the newline.
      have closing : (behind ++ '\n' :: rest)[text.length]? = some quote ↔
          behind[text.length]? = some quote := by
        have within : text.length ≤ behind.length := by
          rw [← inner]
          exact (List.takeWhile_prefix _).length_le
        rcases Nat.lt_or_eq_of_le within with inside | atEnd
        next => rw [List.getElem?_append_left inside]
        next =>
          have other : '\n' ≠ quote := by rcases quotes with rfl | rfl <;> decide
          simp [atEnd, other]
      simp only [closing]
    next => rw [if_neg quotes, if_neg quotes]

theorem literalExtent_seam {word : List Char} (plain : '\n' ∉ word) (text rest : List Char) :
    literalExtent word (text ++ '\n' :: rest) = literalExtent word text := by
  have same : word.isPrefixOf (text ++ '\n' :: rest) = word.isPrefixOf text := by
    induction word generalizing text with
    | nil => simp
    | cons first others ih =>
      simp only [List.mem_cons, not_or] at plain
      cases text with
      | nil => simp [List.isPrefixOf, Ne.symm plain.1]
      | cons head tail => simp [List.isPrefixOf, ih plain.2]
  rw [literalExtent, same, literalExtent]

theorem gapExtent_seam (text rest : List Char) :
    gapExtent (text ++ '\n' :: rest) = gapExtent text := by
  rw [gapExtent, takeWhile_seam rfl, gapExtent]

theorem nameExtent_seam (text rest : List Char) :
    nameExtent (text ++ '\n' :: rest) = nameExtent text := by
  cases text with
  | nil => rfl
  | cons first behind => rw [List.cons_append, nameExtent, takeWhile_seam rfl, nameExtent]

theorem commentExtent_seam (text rest : List Char) :
    commentExtent (text ++ '\n' :: rest) = commentExtent text := by
  cases text with
  | nil => simp [commentExtent]
  | cons first behind =>
    by_cases mark : first = '#'
    next =>
      subst mark
      rw [List.cons_append, commentExtent, takeWhile_seam rfl, commentExtent]
    next => simp [commentExtent, mark]

theorem newlineExtent_seam {text : List Char} (nonempty : text ≠ []) (other : text ≠ ['\r'])
    (rest : List Char) : newlineExtent (text ++ '\n' :: rest) = newlineExtent text := by
  cases text with
  | nil => exact absurd rfl nonempty
  | cons first behind =>
    cases behind with
    | nil =>
      have apart : first ≠ '\r' := by simpa using other
      by_cases newline : first = '\n'
      next => simp [newlineExtent, newline]
      next => simp [newlineExtent, newline, apart]
    | cons second more =>
      unfold newlineExtent
      split <;> split <;> simp_all

theorem joinedLineExtent_seam {text : List Char} (nonempty : text ≠ []) (lone : text ≠ ['\\'])
    (other : text ≠ ['\\', '\r']) (rest : List Char) :
    joinedLineExtent (text ++ '\n' :: rest) = joinedLineExtent text := by
  cases text with
  | nil => exact absurd rfl nonempty
  | cons first behind =>
    by_cases mark : first = '\\'
    next =>
      subst mark
      simp only [List.cons_append, joinedLineExtent,
        newlineExtent_seam (by simpa using lone) (by simpa using other)]
    next => simp [joinedLineExtent, mark]

-- Whether a newline behind the text would be taken as part of it.
def awaitsNewline (text : List Char) : Bool :=
  text = ['\r'] || text = ['\\'] || text = ['\\', '\r']

theorem extent_seam (pattern : Pattern) {text : List Char} (nonempty : text ≠ [])
    (complete : awaitsNewline text = false) (rest : List Char) :
    pattern.extent (text ++ '\n' :: rest) = pattern.extent text := by
  simp only [awaitsNewline, Bool.or_eq_false_iff, decide_eq_false_iff_not] at complete
  obtain ⟨⟨noReturn, noMark⟩, neither⟩ := complete
  cases pattern with
  | blank => exact gapExtent_seam text rest
  | comment => exact commentExtent_seam text rest
  | joinedLine => exact joinedLineExtent_seam nonempty noMark neither rest
  | token kind =>
    cases kind with
    | keyword word => exact literalExtent_seam (by cases word <;> decide) text rest
    | symbol sign => exact literalExtent_seam (by cases sign <;> decide) text rest
    | name => exact nameExtent_seam text rest
    | number => exact numberExtent_seam text rest
    | string => exact stringExtent_seam text rest
    | newline => exact newlineExtent_seam nonempty noReturn rest

theorem longestOf_congr {text other : List Char} {patterns : List Pattern}
    (same : ∀ pattern ∈ patterns, pattern.extent text = pattern.extent other) :
    longestOf text patterns = longestOf other patterns := by
  induction patterns with
  | nil => rfl
  | cons pattern rest ih =>
    simp only [List.mem_cons, forall_eq_or_imp] at same
    rw [longestOf, longestOf, same.1, ih same.2]

theorem longest_of_awaitsNewline {text : List Char} (awaits : awaitsNewline text = true) :
    longest text = none := by
  simp only [awaitsNewline, Bool.or_eq_true, decide_eq_true_eq] at awaits
  rcases awaits with (rfl | rfl) | rfl <;> rfl

-- What awaits a newline matches nothing without it, so no match changes.
theorem longest_seam {text : List Char} {found : Pattern × Nat} (nonempty : text ≠ [])
    (longer : longest text = some found) (rest : List Char) :
    longest (text ++ '\n' :: rest) = some found := by
  have complete : awaitsNewline text = false := by
    cases awaits : awaitsNewline text with
    | false => rfl
    | true =>
      rw [longest_of_awaitsNewline awaits] at longer
      cases longer
  rw [← longer]
  exact longestOf_congr fun pattern _ => extent_seam pattern nonempty complete rest

end Pattern

def Span.shift (offset : Nat) (span : Span) : Span :=
  ⟨span.start + offset, span.stop + offset⟩

def Token.shift (offset : Nat) (token : Token) : Token :=
  { token with span := token.span.shift offset }

theorem Pattern.tokens_shift (pattern : Pattern) (offset : Nat) (span : Span) :
    pattern.tokens (span.shift offset) = (pattern.tokens span).map (Token.shift offset) := by
  cases pattern <;> rfl

namespace Token

theorem Scans.seam {offset : Nat} {text rest : List Char} {tokens others : List Token}
    (scans : Scans offset text tokens)
    (behind : Scans (offset + Text.byteLength text) ('\n' :: rest) others) :
    Scans offset (text ++ '\n' :: rest) (tokens ++ others) := by
  induction scans with
  | nil offset => exact behind
  | step nonempty longest later ih =>
    rw [Text.byteLength_append, ← Nat.add_assoc] at behind
    have wider := Pattern.longest_seam (by simp [nonempty]) longest rest
    rw [List.append_assoc] at wider ⊢
    rw [List.append_assoc]
    exact .step nonempty wider (ih behind)

theorem Scans.shift (distance : Nat) {offset : Nat} {text : List Char} {tokens : List Token}
    (scans : Scans offset text tokens) :
    Scans (offset + distance) text (tokens.map (Token.shift distance)) := by
  induction scans with
  | nil offset => exact .nil _
  | @step offset piece rest pattern tokens nonempty longest behind ih =>
    rw [Nat.add_right_comm] at ih
    rw [List.map_append, ← Pattern.tokens_shift, Span.shift, Nat.add_right_comm offset]
    exact .step nonempty longest ih

theorem Scans.newline {offset : Nat} {rest : List Char} {tokens : List Token}
    (scans : Scans (offset + 1) rest tokens) :
    Scans offset ('\n' :: rest) (⟨.newline, ⟨offset, offset + 1⟩⟩ :: tokens) := by
  have nonempty : ['\n'] ≠ [] := by simp
  exact .step nonempty (Pattern.longest_newline rest) scans

theorem ofSource_seam {source other : List Char} {tokens others : List Token}
    (scanned : ofSource source = .ok tokens) (otherScanned : ofSource other = .ok others) :
    ofSource (source ++ '\n' :: other) =
      .ok (tokens ++ ⟨.newline, ⟨Text.byteLength source, Text.byteLength source + 1⟩⟩ ::
        others.map (shift (Text.byteLength source + 1))) := by
  have scans := ofSource_eq_ok.mp scanned
  have otherScans := (ofSource_eq_ok.mp otherScanned).shift (Text.byteLength source + 1)
  rw [Nat.zero_add] at otherScans
  have both := scans.seam (by rw [Nat.zero_add]; exact otherScans.newline)
  exact ofSource_eq_ok.mpr both

end Token

end StackScript
