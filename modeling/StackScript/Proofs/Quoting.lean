import Mathlib.Tactic.IntervalCases
import Mathlib.Tactic.SplitIfs
import StackScript.Text.Quoted

set_option autoImplicit false

namespace StackScript.Text

def hexDigits : List Char :=
  "0123456789abcdef".toList

def hexValue (digits : List Char) : Nat :=
  digits.foldl (fun value digit => 16 * value + hexDigits.idxOf digit) 0

theorem idxOf_digitChar {digit : Nat} (small : digit < 16) :
    hexDigits.idxOf (Nat.digitChar digit) = digit := by
  interval_cases digit <;> decide

theorem digitChar_mem_hexDigits {digit : Nat} (small : digit < 16) :
    Nat.digitChar digit ∈ hexDigits := by
  interval_cases digit <;> decide

theorem hexValue_toDigits (value : Nat) : hexValue (Nat.toDigits 16 value) = value := by
  induction value using Nat.strongRecOn with
  | ind value ih =>
    rw [Nat.toDigits_eq_if (by decide)]
    split
    next small => simp [hexValue, idxOf_digitChar small]
    next large =>
      have front := ih (value / 16) (by omega)
      have last := idxOf_digitChar (Nat.mod_lt value (show 16 > 0 by decide))
      rw [hexValue, List.foldl_append, ← hexValue, front, List.foldl_cons, List.foldl_nil, last]
      exact Nat.div_add_mod value 16

theorem mem_hexDigits_of_mem_toDigits {value : Nat} {character : Char}
    (member : character ∈ Nat.toDigits 16 value) : character ∈ hexDigits := by
  induction value using Nat.strongRecOn with
  | ind value ih =>
    rw [Nat.toDigits_eq_if (by decide)] at member
    split at member
    next small =>
      rw [List.mem_singleton.mp member]
      exact digitChar_mem_hexDigits small
    next large =>
      rcases List.mem_append.mp member with front | last
      next => exact ih (value / 16) (by omega) front
      next =>
        rw [List.mem_singleton.mp last]
        exact digitChar_mem_hexDigits (Nat.mod_lt value (by decide))

def lettered (letter : Char) : Char :=
  if letter = 't' then '\t'
  else if letter = 'r' then '\r'
  else if letter = 'n' then '\n'
  else if letter = '0' then '\x00'
  else letter

/-- Reads the written form of a character from the front of a text and gives what follows it. -/
def readEscaped : List Char → Option (Char × List Char)
  | '\\' :: 'u' :: rest =>
    some (Char.ofNat (hexValue ((rest.takeWhile (· != '\x7d')).drop 1)),
      (rest.dropWhile (· != '\x7d')).drop 1)
  | '\\' :: letter :: rest => some (lettered letter, rest)
  | character :: rest => some (character, rest)
  | [] => none

theorem readEscaped_code (character : Char) (rest : List Char) :
    readEscaped (['\\', 'u', '\x7b'] ++ Nat.toDigits 16 character.toNat ++ ['\x7d'] ++ rest) =
      some (character, rest) := by
  have inside : ∀ digit ∈ '\x7b' :: Nat.toDigits 16 character.toNat, (digit != '\x7d') = true := by
    intro digit member
    rcases List.mem_cons.mp member with rfl | member
    next => rfl
    next =>
      rw [bne_iff_ne]
      rintro rfl
      exact absurd (mem_hexDigits_of_mem_toDigits member) (by decide)
  have taken : ('\x7b' :: Nat.toDigits 16 character.toNat ++ '\x7d' :: rest).takeWhile
      (· != '\x7d') = '\x7b' :: Nat.toDigits 16 character.toNat := by
    rw [List.takeWhile_append_of_pos inside, List.takeWhile_cons_of_neg (by simp), List.append_nil]
  have dropped : ('\x7b' :: Nat.toDigits 16 character.toNat ++ '\x7d' :: rest).dropWhile
      (· != '\x7d') = '\x7d' :: rest := by
    rw [List.dropWhile_append_of_pos inside, List.dropWhile_cons_of_neg (by simp)]
  have whole : ['\\', 'u', '\x7b'] ++ Nat.toDigits 16 character.toNat ++ ['\x7d'] ++ rest =
      '\\' :: 'u' :: ('\x7b' :: Nat.toDigits 16 character.toNat ++ '\x7d' :: rest) := by
    simp
  rw [whole, readEscaped, taken, dropped, List.drop_one, List.drop_one, List.tail_cons,
    List.tail_cons, hexValue_toDigits, Char.ofNat_toNat]

theorem escape_cases (character : Char) :
    (∃ letter ∈ ['"', '\\', 't', 'r', 'n', '0'], escape character = ['\\', letter] ∧
      lettered letter = character) ∨
    (escape character = [character] ∧ character ≠ '\\' ∧ character ≠ '\n') ∨
    escape character =
      ['\\', 'u', '\x7b'] ++ Nat.toDigits 16 character.toNat ++ ['\x7d'] := by
  unfold escape
  split_ifs with quote backslash tab carriage newline null plain
  next => exact .inl ⟨'"', by decide, rfl, quote.symm⟩
  next => exact .inl ⟨'\\', by decide, rfl, backslash.symm⟩
  next => exact .inl ⟨'t', by decide, rfl, tab.symm⟩
  next => exact .inl ⟨'r', by decide, rfl, carriage.symm⟩
  next => exact .inl ⟨'n', by decide, rfl, newline.symm⟩
  next => exact .inl ⟨'0', by decide, rfl, null.symm⟩
  next => exact .inr (.inl ⟨rfl, backslash, newline⟩)
  next => exact .inr (.inr rfl)

theorem readEscaped_escape (character : Char) (rest : List Char) :
    readEscaped (escape character ++ rest) = some (character, rest) := by
  rcases escape_cases character with ⟨letter, member, written, same⟩ | ⟨written, plain, -⟩ | written
  next =>
    have other : letter ≠ 'u' := by
      rintro rfl
      exact absurd member (by decide)
    rw [written, List.cons_append, List.singleton_append,
      readEscaped.eq_2 letter rest (by simpa using other), same]
  next =>
    rw [written, List.singleton_append,
      readEscaped.eq_3 character rest (by simp [plain]) (by simp [plain])]
  next => rw [written, readEscaped_code]

theorem newline_notMem_escape (character : Char) : '\n' ∉ escape character := by
  rcases escape_cases character with ⟨letter, member, written, -⟩ | ⟨written, -, other⟩ | written
  next =>
    rw [written]
    intro newline
    rcases List.mem_cons.mp newline with same | newline
    next => exact absurd same (by decide)
    next =>
      obtain rfl : '\n' = letter := List.mem_singleton.mp newline
      exact absurd member (by decide)
  next =>
    rw [written, List.mem_singleton]
    exact Ne.symm other
  next =>
    rw [written, List.mem_append, List.mem_append]
    rintro ((newline | newline) | newline)
    next => exact absurd newline (by decide)
    next => exact absurd (mem_hexDigits_of_mem_toDigits newline) (by decide)
    next => exact absurd newline (by decide)

theorem flatMap_escape_injective {text other : List Char}
    (same : text.flatMap escape = other.flatMap escape) : text = other := by
  induction text generalizing other with
  | nil =>
    cases other with
    | nil => rfl
    | cons first rest =>
      have read := readEscaped_escape first (rest.flatMap escape)
      rw [← List.flatMap_cons, ← same] at read
      cases read
  | cons first rest ih =>
    have read := readEscaped_escape first (rest.flatMap escape)
    rw [← List.flatMap_cons, same] at read
    cases other with
    | nil => cases read
    | cons second others =>
      rw [List.flatMap_cons, readEscaped_escape, Option.some.injEq, Prod.mk.injEq] at read
      rw [read.1, ih read.2.symm]

theorem quote_injective {text other : List Char} (same : quote text = quote other) :
    text = other := by
  apply flatMap_escape_injective
  simpa [quote] using same

theorem newline_notMem_quote (text : List Char) : '\n' ∉ quote text := by
  have inside : '\n' ∉ text.flatMap escape := by
    intro member
    obtain ⟨character, -, newline⟩ := List.mem_flatMap.mp member
    exact newline_notMem_escape character newline
  simpa [quote] using inside

end StackScript.Text
