import Mathlib.Data.List.Forall2
import StackScript.Proofs.Scripts

set_option autoImplicit false

namespace StackScript

namespace CompileError

/-- What is left of an error without its place and its wording. -/
inductive Variant where
  | lexical
  | fault (kind : Fault.Kind)
  | reference
deriving DecidableEq, Repr

def variant : CompileError → Variant
  | lexical _ => .lexical
  | fault cause _ => .fault cause.kind
  | reference _ _ => .reference

end CompileError

inductive Agree {α β : Type} (alike : α → β → Prop) :
    Except CompileError α → Except CompileError β → Prop
  | ok {value : α} {other : β} (same : alike value other) : Agree alike (.ok value) (.ok other)
  | error {error problem : CompileError} (same : error.variant = problem.variant) :
      Agree alike (.error error) (.error problem)

namespace Agree

variable {α β γ δ : Type} {alike : α → β → Prop} {after : γ → δ → Prop}

theorem bind_of_ok {first : Except CompileError α} {second : Except CompileError β}
    {next : α → Except CompileError γ} {follow : β → Except CompileError δ}
    (head : Agree alike first second)
    (tail : ∀ value other, first = .ok value → second = .ok other → alike value other →
      Agree after (next value) (follow other)) :
    Agree after (first >>= next) (second >>= follow) := by
  cases head with
  | ok same => exact tail _ _ rfl rfl same
  | error same => exact .error same

theorem bind {first : Except CompileError α} {second : Except CompileError β}
    {next : α → Except CompileError γ} {follow : β → Except CompileError δ}
    (head : Agree alike first second)
    (tail : ∀ value other, alike value other → Agree after (next value) (follow other)) :
    Agree after (first >>= next) (second >>= follow) :=
  head.bind_of_ok fun value other _ _ => tail value other

theorem mono_of_ok {weaker : α → β → Prop} {first : Except CompileError α}
    {second : Except CompileError β} (agree : Agree alike first second)
    (less : ∀ value other, first = .ok value → second = .ok other → alike value other →
      weaker value other) :
    Agree weaker first second := by
  cases agree with
  | ok same => exact .ok (less _ _ rfl rfl same)
  | error same => exact .error same

theorem mono {weaker : α → β → Prop} {first : Except CompileError α}
    {second : Except CompileError β} (agree : Agree alike first second)
    (less : ∀ value other, alike value other → weaker value other) :
    Agree weaker first second :=
  agree.mono_of_ok fun value other _ _ => less value other

theorem exists_of_ok {first : Except CompileError α} {second : Except CompileError β}
    (agree : Agree alike first second) {value : α} (success : first = .ok value) :
    ∃ other, second = .ok other ∧ alike value other := by
  subst success
  cases agree with
  | ok same => exact ⟨_, rfl, same⟩

theorem exists_of_other_ok {first : Except CompileError α} {second : Except CompileError β}
    (agree : Agree alike first second) {other : β} (success : second = .ok other) :
    ∃ value, first = .ok value ∧ alike value other := by
  subst success
  cases agree with
  | ok same => exact ⟨_, rfl, same⟩

theorem unexpected {size otherSize : Nat} {expected other : Fault.Expected}
    {tokens others : List Token} :
    Agree alike (.error (Reader.unexpected size expected tokens))
      (.error (Reader.unexpected otherSize other others)) := by
  apply error
  cases tokens <;> cases others <;> rfl

end Agree

/-- Two sources, and which spans of them stand for each other. -/
structure Correspondence where
  source : List Char
  other : List Char
  spans : Span → Span → Prop
  join : ∀ {first last otherFirst otherLast : Span}, spans first otherFirst →
    spans last otherLast → spans (first.join last) (otherFirst.join otherLast)

namespace Correspondence

variable (correspondence : Correspondence)

def Spell (span other : Span) : Prop :=
  correspondence.spans span other ∧
    span.slice correspondence.source = other.slice correspondence.other

end Correspondence

namespace Token

def skip (tokens : List Token) : List Token :=
  tokens.dropWhile (·.kind.isSeparator)

/-- The same tokens, up to how many separators end a statement. -/
inductive Alike (correspondence : Correspondence) : List Token → List Token → Prop
  | nil : Alike correspondence [] []
  | word (kind : Kind) {span other : Span} {rest behind : List Token}
      (plain : kind.isSeparator = false) (spelled : correspondence.Spell span other)
      (tail : Alike correspondence rest behind) :
      Alike correspondence (⟨kind, span⟩ :: rest) (⟨kind, other⟩ :: behind)
  | gap {tokens others : List Token} (ends : Ends tokens) (otherEnds : Ends others)
      (tail : Alike correspondence (skip tokens) (skip others)) : Alike correspondence tokens others

inductive Heads (correspondence : Correspondence) : List Token → List Token → Prop
  | word (kind : Kind) {span other : Span} {rest behind : List Token}
      (plain : kind.isSeparator = false) (spelled : correspondence.Spell span other)
      (tail : Alike correspondence rest behind) :
      Heads correspondence (⟨kind, span⟩ :: rest) (⟨kind, other⟩ :: behind)
  | ends {tokens others : List Token} (ends : Ends tokens) (otherEnds : Ends others) :
      Heads correspondence tokens others

inductive Ending : List Token → Prop
  | nil : Ending []
  | newline (span : Span) (rest : List Token) : Ending (⟨.newline, span⟩ :: rest)
  | semicolon (span : Span) (rest : List Token) : Ending (⟨.symbol .semicolon, span⟩ :: rest)

theorem Ends.cases {tokens : List Token} (ends : Ends tokens) : Ending tokens := by
  cases tokens with
  | nil => exact .nil
  | cons token rest =>
    obtain ⟨kind, span⟩ := token
    have separator : kind.isSeparator = true := ends.head
    unfold Kind.isSeparator at separator
    split at separator
    next => exact .newline span rest
    next => exact .semicolon span rest
    next => cases separator

theorem skip_eq_nil {tokens : List Token} (ends : Ends (skip tokens)) : skip tokens = [] := by
  have begins := List.head?_dropWhile_not (·.kind.isSeparator) tokens
  unfold skip at ends ⊢
  generalize tokens.dropWhile (·.kind.isSeparator) = rest at *
  cases ends.cases with
  | nil => rfl
  | newline | semicolon => cases begins

namespace Alike

variable {correspondence : Correspondence} {tokens others : List Token}

theorem head (alike : Alike correspondence tokens others) :
    Heads correspondence tokens others := by
  cases alike with
  | nil => exact .ends .nil .nil
  | word kind plain spelled tail => exact .word kind plain spelled tail
  | gap ends otherEnds tail => exact .ends ends otherEnds

theorem skip (alike : Alike correspondence tokens others) :
    Alike correspondence (skip tokens) (skip others) := by
  cases alike with
  | nil => exact .nil
  | word kind plain spelled tail => simpa [Token.skip, plain] using word kind plain spelled tail
  | gap ends otherEnds tail => exact tail

end Alike

end Token

namespace Phrase

inductive Alike (correspondence : Correspondence) : Phrase → Phrase → Prop
  | leaf {kind : Tree.Kind} {span other : Span} (token : kind.isToken = true)
      (spelled : correspondence.Spell span other) :
      Alike correspondence (.leaf kind span) (.leaf kind other)
  | node {kind : Tree.Kind} {span other : Span} {children others : List Phrase}
      (composite : kind.isToken = false) (spans : correspondence.spans span other)
      (inside : List.Forall₂ (Alike correspondence) children others) :
      Alike correspondence (.node kind span children) (.node kind other others)

namespace Alike

variable {correspondence : Correspondence} {phrase other : Phrase}

theorem kind (alike : Alike correspondence phrase other) : phrase.kind = other.kind := by
  cases alike <;> rfl

theorem spans (alike : Alike correspondence phrase other) :
    correspondence.spans phrase.span other.span := by
  cases alike with
  | leaf token spelled => exact spelled.1
  | node composite spans inside => exact spans

theorem spelled (alike : Alike correspondence phrase other) (token : phrase.kind.isToken = true) :
    phrase.span.slice correspondence.source = other.span.slice correspondence.other := by
  cases alike with
  | leaf token spelled => exact spelled.2
  | node composite spans inside => simp [Phrase.kind, composite] at token

theorem children (alike : Alike correspondence phrase other) :
    List.Forall₂ (Alike correspondence) phrase.children other.children := by
  cases alike with
  | leaf token spelled => exact .nil
  | node composite spans inside => exact inside

theorem getLastD {phrases others : List Phrase}
    (inside : List.Forall₂ (Alike correspondence) phrases others)
    (alike : Alike correspondence phrase other) :
    Alike correspondence (phrases.getLastD phrase) (others.getLastD other) := by
  induction inside generalizing phrase other with
  | nil => exact alike
  | cons first rest ih =>
    rw [List.getLastD_cons, List.getLastD_cons]
    exact ih first

theorem wrap {kind : Tree.Kind} {rest others : List Phrase}
    (first : Alike correspondence phrase other) (composite : kind.isToken = false)
    (inside : List.Forall₂ (Alike correspondence) rest others) :
    Alike correspondence (.wrap kind phrase rest) (.wrap kind other others) :=
  .node composite (correspondence.join first.spans (getLastD inside first).spans)
    (.cons first inside)

end Alike

end Phrase

end StackScript
