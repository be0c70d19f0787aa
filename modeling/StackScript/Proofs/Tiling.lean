import StackScript.Proofs.Printing

set_option autoImplicit false

namespace StackScript

namespace Pattern

theorem digitsExtent_le (text : List Char) : digitsExtent text ≤ text.length :=
  (List.takeWhile_prefix _).length_le

theorem signExtent_le (text : List Char) : signExtent text ≤ text.length := by
  cases text with
  | nil => exact Nat.le_refl _
  | cons first rest =>
    rw [signExtent, List.length_cons]
    split <;> omega

theorem exponentExtent_le (text : List Char) : exponentExtent text ≤ text.length := by
  cases text with
  | nil => exact Nat.le_refl _
  | cons mark rest =>
    have sign := signExtent_le rest
    have digits := digitsExtent_le (rest.drop (signExtent rest))
    rw [List.length_drop] at digits
    simp only [exponentExtent, List.length_cons]
    split
    next => split <;> omega
    next => omega

theorem numberExtent_of_point {text rest : List Char}
    (point : text.drop (digitsExtent text) = '.' :: rest) :
    numberExtent text = if digitsExtent text + digitsExtent rest = 0 then 0
      else digitsExtent text + 1 + digitsExtent rest +
        exponentExtent (rest.drop (digitsExtent rest)) := by
  simp only [numberExtent, point]

theorem numberExtent_of_no_point {text : List Char}
    (pointless : ∀ rest, text.drop (digitsExtent text) ≠ '.' :: rest) :
    numberExtent text = if digitsExtent text = 0 then 0
      else digitsExtent text + exponentExtent (text.drop (digitsExtent text)) := by
  unfold numberExtent
  dsimp only
  split
  next rest point => exact absurd point (pointless rest)
  next => rfl

theorem numberExtent_le (text : List Char) : numberExtent text ≤ text.length := by
  have whole := digitsExtent_le text
  have length := List.length_drop (i := digitsExtent text) (l := text)
  by_cases point : ∃ rest, text.drop (digitsExtent text) = '.' :: rest
  next =>
    obtain ⟨rest, point⟩ := point
    have fraction := digitsExtent_le rest
    have exponent := exponentExtent_le (rest.drop (digitsExtent rest))
    rw [List.length_drop] at exponent
    rw [point, List.length_cons] at length
    rw [numberExtent_of_point point]
    split <;> omega
  next =>
    have exponent := exponentExtent_le (text.drop (digitsExtent text))
    rw [numberExtent_of_no_point (not_exists.mp point)]
    split <;> omega

theorem stringExtent_le (text : List Char) : stringExtent text ≤ text.length := by
  cases text with
  | nil => exact Nat.le_refl _
  | cons quote rest =>
    simp only [stringExtent, List.length_cons]
    split
    next =>
      split
      next closed =>
        obtain ⟨inside, -⟩ := List.getElem?_eq_some_iff.mp closed
        omega
      next => omega
    next => omega

theorem literalExtent_le (word text : List Char) : literalExtent word text ≤ text.length := by
  unfold literalExtent
  split
  next covers => exact (List.isPrefixOf_iff_prefix.mp covers).length_le
  next => exact Nat.zero_le _

theorem newlineExtent_le (text : List Char) : newlineExtent text ≤ text.length := by
  unfold newlineExtent
  split <;> simp

theorem commentExtent_le (text : List Char) : commentExtent text ≤ text.length := by
  unfold commentExtent
  split
  next rest =>
    have inside := (List.takeWhile_prefix (l := rest) (· != '\n')).length_le
    rw [List.length_cons]
    omega
  next => exact Nat.zero_le _

theorem joinedLineExtent_le (text : List Char) : joinedLineExtent text ≤ text.length := by
  unfold joinedLineExtent
  split
  next rest =>
    have inside := newlineExtent_le rest
    rw [List.length_cons]
    dsimp only
    split <;> omega
  next => exact Nat.zero_le _

theorem extent_le (pattern : Pattern) (text : List Char) : pattern.extent text ≤ text.length := by
  cases pattern with
  | blank => exact (List.takeWhile_prefix _).length_le
  | comment => exact commentExtent_le text
  | joinedLine => exact joinedLineExtent_le text
  | token kind =>
    cases kind with
    | keyword word => exact literalExtent_le _ text
    | symbol sign => exact literalExtent_le _ text
    | name => exact nameExtent_le text
    | number => exact numberExtent_le text
    | string => exact stringExtent_le text
    | newline => exact newlineExtent_le text

end Pattern

namespace Token

/-- A text that starts at an offset is cut into longest matches, which yield the tokens. -/
inductive Scans : Nat → List Char → List Token → Prop
  | nil (offset : Nat) : Scans offset [] []
  | step {offset : Nat} {piece rest : List Char} {pattern : Pattern} {tokens : List Token}
      (nonempty : piece ≠ [])
      (longest : Pattern.longest (piece ++ rest) = some (pattern, piece.length))
      (behind : Scans (offset + Text.byteLength piece) rest tokens) :
      Scans offset (piece ++ rest)
        (pattern.tokens ⟨offset, offset + Text.byteLength piece⟩ ++ tokens)

theorem cut_of_longest {first : Char} {rest : List Char} {pattern : Pattern} {extent : Nat}
    (found : Pattern.longest (first :: rest) = some (pattern, extent)) :
    ∃ piece behind, piece ≠ [] ∧ first :: rest = piece ++ behind ∧ extent = piece.length ∧
      (first :: rest).take extent = piece ∧ rest.drop (extent - 1) = behind := by
  obtain ⟨-, covered, positive, -⟩ := Pattern.longestOf_eq_some found
  have within := Pattern.extent_le pattern (first :: rest)
  rw [covered] at within
  obtain ⟨extent, rfl⟩ := Nat.exists_eq_add_one_of_ne_zero (Nat.ne_of_gt positive)
  have length : ((first :: rest).take (extent + 1)).length = extent + 1 := by
    rw [List.length_take, Nat.min_eq_left within]
  refine ⟨_, _, by simp, ?_, length.symm, rfl, rfl⟩
  rw [List.take_succ_cons, List.cons_append, Nat.add_sub_cancel, List.take_append_drop]

theorem scans_of_scan {offset : Nat} {text : List Char} {tokens : List Token}
    (scanned : scan offset text = .ok tokens) : Scans offset text tokens := by
  fun_induction scan offset text generalizing tokens with
  | case1 offset =>
    cases scanned
    exact .nil offset
  | case2 => simp at scanned
  | case3 => simp at scanned
  | case4 offset first rest pattern extent found stop later deeper =>
    rename_i ih
    rw [Except.ok.injEq] at scanned
    subst scanned
    have behind := ih deeper
    obtain ⟨piece, left, nonempty, cut, rfl, taken, dropped⟩ := cut_of_longest found
    simp only [stop, taken, dropped] at behind ⊢
    rw [cut] at found ⊢
    exact .step nonempty found behind

theorem Scans.eq_ok {offset : Nat} {text : List Char} {tokens : List Token}
    (scans : Scans offset text tokens) : scan offset text = .ok tokens := by
  induction scans with
  | nil offset =>
    unfold scan
    rfl
  | step nonempty longest behind ih => exact scan_of_longest nonempty longest ih

theorem ofSource_eq_ok {source : List Char} {tokens : List Token} :
    ofSource source = .ok tokens ↔ Scans 0 source tokens := by
  rw [ofSource, mapError_eq_ok]
  exact ⟨scans_of_scan, Scans.eq_ok⟩

end Token

end StackScript
