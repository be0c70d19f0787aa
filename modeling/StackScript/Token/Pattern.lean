import StackScript.Token

set_option autoImplicit false

namespace StackScript

inductive Pattern where
  | blank
  | comment
  | joinedLine
  | token (kind : Token.Kind)
deriving DecidableEq, Repr

namespace Pattern

def isWordStart (character : Char) : Bool :=
  character.isAlpha || character == '_'

def isWordPart (character : Char) : Bool :=
  character.isAlphanum || character == '_'

def isGap (character : Char) : Bool :=
  character == ' ' || character == '\t' || character == '\x0c'

def literalExtent (word text : List Char) : Nat :=
  if word.isPrefixOf text then word.length else 0

def gapExtent (text : List Char) : Nat :=
  (text.takeWhile isGap).length

def commentExtent : List Char → Nat
  | '#' :: rest => 1 + (rest.takeWhile (· != '\n')).length
  | _ => 0

def newlineExtent : List Char → Nat
  | '\n' :: _ => 1
  | '\r' :: '\n' :: _ => 2
  | _ => 0

def joinedLineExtent : List Char → Nat
  | '\\' :: rest =>
    let extent := newlineExtent rest
    if extent = 0 then 0 else 1 + extent
  | _ => 0

def nameExtent : List Char → Nat
  | [] => 0
  | first :: rest => if isWordStart first then 1 + (rest.takeWhile isWordPart).length else 0

def digitsExtent (text : List Char) : Nat :=
  (text.takeWhile Char.isDigit).length

def signExtent : List Char → Nat
  | first :: _ => if first = '+' ∨ first = '-' then 1 else 0
  | [] => 0

def exponentExtent : List Char → Nat
  | mark :: rest =>
    if mark = 'e' ∨ mark = 'E' then
      let sign := signExtent rest
      let digits := digitsExtent (rest.drop sign)
      if digits = 0 then 0 else 1 + sign + digits
    else 0
  | [] => 0

def numberExtent (text : List Char) : Nat :=
  let whole := digitsExtent text
  match text.drop whole with
  | '.' :: rest =>
    let fraction := digitsExtent rest
    if whole + fraction = 0 then 0
    else whole + 1 + fraction + exponentExtent (rest.drop fraction)
  | rest => if whole = 0 then 0 else whole + exponentExtent rest

def stringExtent : List Char → Nat
  | quote :: rest =>
    if quote = '"' ∨ quote = '\'' then
      let inner := rest.takeWhile fun character => character != quote && character != '\n'
      if rest[inner.length]? = some quote then inner.length + 2 else 0
    else 0
  | [] => 0

def tokenExtent : Token.Kind → List Char → Nat
  | .keyword word => literalExtent word.text.toList
  | .name => nameExtent
  | .number => numberExtent
  | .string => stringExtent
  | .symbol sign => literalExtent sign.text.toList
  | .newline => newlineExtent

def extent : Pattern → List Char → Nat
  | blank => gapExtent
  | comment => commentExtent
  | joinedLine => joinedLineExtent
  | token kind => tokenExtent kind

/-- Every pattern. Of two that cover the same text the earlier is meant, so that a keyword is no
name. -/
def all : List Pattern :=
  [blank, comment, joinedLine] ++ Keyword.all.map (token <| .keyword ·) ++
    [token .name, token .number, token .string] ++ Symbol.all.map (token <| .symbol ·) ++
    [token .newline]

def longestOf (text : List Char) : List Pattern → Option (Pattern × Nat)
  | [] => none
  | pattern :: rest =>
    let covered := pattern.extent text
    match longestOf text rest with
    | none => if covered = 0 then none else some (pattern, covered)
    | some (other, longer) =>
      if covered < longer then some (other, longer) else some (pattern, covered)

theorem longestOf_eq_none {text : List Char} {patterns : List Pattern} :
    longestOf text patterns = none ↔ ∀ pattern ∈ patterns, pattern.extent text = 0 := by
  induction patterns with
  | nil => simp [longestOf]
  | cons pattern rest ih =>
    rw [longestOf]
    split
    next missing =>
      have nothing := ih.mp missing
      by_cases covered : pattern.extent text = 0 <;> simp_all
    next other longer found =>
      have something : ¬ ∀ pattern ∈ rest, pattern.extent text = 0 := by
        rw [← ih, found]
        simp
      split <;> simp_all

theorem longestOf_eq_some {text : List Char} {patterns : List Pattern} {pattern : Pattern}
    {extent : Nat} (found : longestOf text patterns = some (pattern, extent)) :
    pattern ∈ patterns ∧ pattern.extent text = extent ∧ 0 < extent ∧
      ∀ other ∈ patterns, other.extent text ≤ extent := by
  induction patterns generalizing pattern extent with
  | nil => simp [longestOf] at found
  | cons head rest ih =>
    rw [longestOf] at found
    split at found
    next missing =>
      have nothing := longestOf_eq_none.mp missing
      split at found
      next => simp at found
      next covered =>
        simp only [Option.some.injEq, Prod.mk.injEq] at found
        obtain ⟨rfl, rfl⟩ := found
        refine ⟨by simp, rfl, by omega, ?_⟩
        intro other member
        rcases List.mem_cons.mp member with rfl | member
        · exact Nat.le_refl _
        · rw [nothing other member]
          exact Nat.zero_le _
    next other longer deeper =>
      obtain ⟨member, same, positive, longest⟩ := ih deeper
      split at found <;> simp only [Option.some.injEq, Prod.mk.injEq] at found <;>
        obtain ⟨rfl, rfl⟩ := found
      next shorter =>
        refine ⟨by simp [member], same, positive, ?_⟩
        intro third third_member
        rcases List.mem_cons.mp third_member with rfl | third_member
        · exact Nat.le_of_lt shorter
        · exact longest third third_member
      next covered =>
        refine ⟨by simp, rfl, by omega, ?_⟩
        intro third third_member
        rcases List.mem_cons.mp third_member with rfl | third_member
        · exact Nat.le_refl _
        · exact Nat.le_trans (longest third third_member) (by omega)

def longest (text : List Char) : Option (Pattern × Nat) :=
  longestOf text all

end Pattern

end StackScript
