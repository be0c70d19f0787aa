import StackScript.CommandLine
import StackScript.Proofs.Digits
import StackScript.Proofs.Matching

set_option autoImplicit false

namespace StackScript

namespace Text

theorem isWordPart_of_mem {text : List Char} {character : Char}
    (identifier : isIdentifier text = true) (member : character ∈ text) :
    Pattern.isWordPart character = true := by
  cases text with
  | nil => cases member
  | cons first rest =>
    rw [isIdentifier, Bool.and_eq_true_iff, List.all_eq_true] at identifier
    rcases List.mem_cons.mp member with rfl | later
    next => exact Pattern.isWordPart_of_isWordStart identifier.1
    next => exact identifier.2 character later

theorem isInline_of_isWordPart {character : Char} (part : Pattern.isWordPart character = true) :
    isInline character = true := by
  rw [isInline, Bool.and_eq_true_iff, bne_iff_ne, bne_iff_ne]
  constructor <;> rintro rfl <;> cases part

end Text

namespace Slot

def Identified : Slot → Prop
  | scratch => True
  | named name => Text.isIdentifier name.toList = true

instance : DecidablePred Identified
  | scratch => .isTrue trivial
  | named name => inferInstanceAs (Decidable (Text.isIdentifier name.toList = true))

theorem name_injective {slot other : Slot} (identified : slot.Identified)
    (otherIdentified : other.Identified) (same : slot.name = other.name) : slot = other := by
  -- The scratch slot is spelled with a dollar sign, so it is no identifier.
  have dollar (name : String) (spelled : name = "$last") : ¬ (named name).Identified := by
    subst spelled
    change ¬ Text.isIdentifier "$last".toList = true
    decide
  cases slot with
  | scratch =>
    cases other with
    | scratch => rfl
    | named name => exact absurd otherIdentified (dollar name same.symm)
  | named name =>
    cases other with
    | scratch => exact absurd identified (dollar name same)
    | named other => exact congrArg named same

theorem isInline_of_mem_name {slot : Slot} (identified : slot.Identified) :
    ∀ character ∈ slot.name.toList, Text.isInline character = true := by
  cases slot with
  | scratch => exact List.all_eq_true.mp (by decide)
  | named name =>
    intro character member
    exact Text.isInline_of_isWordPart (Text.isWordPart_of_mem identified member)

end Slot

theorem Decimal.isInline_of_mem_toString (value : Int) :
    ∀ character ∈ (toString value).toList, Text.isInline character = true := by
  have inside : ∀ character ∈ digits value, Text.isInline character = true := by
    intro character member
    exact Text.isInline_of_isWordPart
      (Pattern.isWordPart_of_isDigit (isDigit_of_mem_digits member))
  by_cases negative : value < 0
  next =>
    rw [toString_of_neg negative, List.forall_mem_cons]
    exact ⟨rfl, inside⟩
  next =>
    rw [toString_of_nonneg (Int.not_lt.mp negative)]
    exact inside

theorem Builtin.name_injective {builtin other : Builtin} (same : builtin.name = other.name) :
    builtin = other := by
  have found (builtin : Builtin) :
      (all.find? fun listed => listed.name = builtin.name) = some builtin := by
    cases builtin <;> decide
  rw [← Option.some.injEq, ← found builtin, same, found other]

namespace Instruction

def mentioned? : Instruction → Option Slot
  | declare slot | get slot | set slot => some slot
  | const _ | arith _ | call _ => none

def Identified (instruction : Instruction) : Prop :=
  ∀ slot ∈ instruction.mentioned?, slot.Identified

instance (instruction : Instruction) : Decidable instruction.Identified :=
  inferInstanceAs (Decidable (∀ slot ∈ instruction.mentioned?, slot.Identified))

def word : Instruction → String
  | declare _ => "local"
  | const _ => "i32.const"
  | get _ => "local.get"
  | set _ => "local.set"
  | arith operator => operator.mnemonic
  | call _ => "call"

theorem takeWhile_text (instruction : Instruction) :
    (instruction.text.toList.drop 1).takeWhile
      (fun character => character != ' ' && character != ')') = instruction.word.toList := by
  cases instruction with
  | arith operator => cases operator <;> decide
  | _ => simp [text, word]

def formOfWord (word : String) : Nat :=
  if word = "local" then 0
  else if word = "i32.const" then 1
  else if word = "local.get" then 2
  else if word = "local.set" then 3
  else if word = "call" then 5
  else 4

theorem formOfWord_word (instruction : Instruction) :
    formOfWord instruction.word = instruction.ctorIdx := by
  cases instruction with
  | arith operator => cases operator <;> decide
  | _ => rfl

theorem fits_toInt (value : Int32) : Decimal.fits value.toInt = true :=
  Decimal.fits_iff.mpr ⟨value.minValue_le_toInt, value.toInt_le⟩

variable {instruction other : Instruction}

theorem text_injective (identified : instruction.Identified) (otherIdentified : other.Identified)
    (same : instruction.text = other.text) : instruction = other := by
  have words : instruction.word = other.word := by
    rw [← String.toList_inj, ← takeWhile_text, ← takeWhile_text, same]
  have forms : instruction.ctorIdx = other.ctorIdx := by
    rw [← formOfWord_word, ← formOfWord_word, words]
  cases instruction <;> cases other
  case declare.declare slot other | get.get slot other | set.set slot other =>
    have names : slot.name = other.name := by simpa [text] using same
    rw [Slot.name_injective (identified slot rfl) (otherIdentified other rfl) names]
  case const.const value other =>
    have values : toString value.toInt = toString other.toInt := by simpa [text] using same
    have read := Literal.value_toString (fits_toInt value)
    rw [values, Literal.value_toString (fits_toInt other)] at read
    rw [Int32.toInt_inj.mp (Except.ok.inj read)]
  case arith.arith operator other =>
    cases operator <;> cases other <;> simp [word, Operator.mnemonic] at words ⊢
  case call.call builtin other =>
    have names : builtin.name = other.name := by simpa [text] using same
    rw [Builtin.name_injective names]
  -- Two instructions of different forms start with different words.
  all_goals cases forms

theorem text_ne_nil (instruction : Instruction) : instruction.text.toList ≠ [] := by
  cases instruction <;> simp [text]

theorem isInline_of_mem_text (identified : instruction.Identified) :
    ∀ character ∈ instruction.text.toList, Text.isInline character = true := by
  rw [← List.all_eq_true]
  cases instruction with
  | declare slot | get slot | set slot =>
    have name := List.all_eq_true.mpr (Slot.isInline_of_mem_name (identified slot rfl))
    simp only [text, String.toList_append, List.all_append, name]
    decide
  | const value =>
    have number := List.all_eq_true.mpr (Decimal.isInline_of_mem_toString value.toInt)
    simp only [text, String.toList_append, List.all_append, number]
    decide
  | arith operator => cases operator <;> decide
  | call builtin => cases builtin <;> decide

end Instruction

def Code.Identified (code : Code) : Prop :=
  ∀ instruction ∈ code, instruction.Identified

instance (code : Code) : Decidable code.Identified :=
  inferInstanceAs (Decidable (∀ instruction ∈ code, instruction.Identified))

namespace Code

theorem toList_text (code : Code) :
    code.text.toList =
      ['\n'].intercalate (code.map fun instruction => instruction.text.toList) := by
  rw [text, String.toList_intercalate, List.map_map]
  rfl

variable {code other : Code}

theorem lines_text (identified : code.Identified) :
    Text.lines code.text.toList = code.map fun instruction => instruction.text.toList := by
  rw [toList_text]
  apply Text.lines_intercalate
  intro line member
  obtain ⟨instruction, present, rfl⟩ := List.mem_map.mp member
  exact ⟨instruction.text_ne_nil, Instruction.isInline_of_mem_text (identified instruction present)⟩

theorem splitOn_text (identified : code.Identified) (nonempty : code ≠ []) :
    code.text.toList.splitOn '\n' = code.map fun instruction => instruction.text.toList := by
  rw [toList_text]
  refine List.splitOn_intercalate '\n' ?_ (by simpa using nonempty)
  intro line member newline
  obtain ⟨instruction, present, rfl⟩ := List.mem_map.mp member
  cases Instruction.isInline_of_mem_text (identified instruction present) _ newline

theorem eq_of_texts (identified : code.Identified) (otherIdentified : other.Identified)
    (same : (code.map fun instruction => instruction.text.toList) =
      other.map fun instruction => instruction.text.toList) : code = other := by
  induction code generalizing other with
  | nil => exact (List.map_eq_nil_iff.mp same.symm).symm
  | cons instruction rest ih =>
    cases other with
    | nil => cases same
    | cons otherInstruction others =>
      rw [List.map_cons, List.map_cons, List.cons.injEq] at same
      unfold Identified at identified otherIdentified
      rw [List.forall_mem_cons] at identified otherIdentified
      rw [Instruction.text_injective identified.1 otherIdentified.1 (String.toList_inj.mp same.1),
        ih identified.2 otherIdentified.2 same.2]

end Code

def Json.field? (name : String) : Json → Option Json
  | object fields => fields.lookup name
  | _ => none

def Code.listing (code : Code) : Json :=
  .array (code.map fun instruction => .string instruction.text)

namespace CommandLine

theorem Snapshot.field?_wat {code : Code} (identified : code.Identified) {snapshot : Snapshot}
    (compiled : snapshot.code = some code) : snapshot.json.field? "wat" = some code.listing := by
  have listed : (Text.lines code.text.toList).map (fun line => Json.string (String.ofList line)) =
      code.map fun instruction => .string instruction.text := by
    rw [Code.lines_text identified, List.map_map]
    simp [Function.comp_def]
  change some (Json.ofOption (snapshot.code.map fun code =>
    .array ((Text.lines code.text.toList).map fun line => .string (String.ofList line)))) = _
  rw [compiled, Option.map_some, listed]
  rfl

def Options.snapshot (options : Options) (program : Program) (code : Code)
    (execution : Option Execution) : Snapshot :=
  { program := if options.ast then some program else none, code := some code, execution }

theorem Options.stdout_compiled {options : Options} (json : options.json = true)
    (program : Program) (code : Code) (execution : Option Execution) :
    (options.compiled program code execution).stdout =
      (options.snapshot program code execution).json.pretty 0 ++ "\n" := by
  rw [compiled, if_pos json]
  rfl

end CommandLine

/-- The text of code loses nothing. Code whose names are identifiers is told from its text. The
text, cut at its newlines, gives the texts of the instructions, one for each and in their order, and
these are what a JSON report lists. -/
theorem Code.text_loses_nothing :
    (∀ code other : Code, code.Identified → other.Identified → code.text = other.text →
      code = other) ∧
    ∀ code : Code, code.Identified → code ≠ [] →
      code.text.toList.splitOn '\n' = (code.map fun instruction => instruction.text.toList) ∧
      ∀ (options : CommandLine.Options) (program : Program)
        (execution : Option CommandLine.Execution), options.json = true →
        (options.compiled program code execution).stdout =
          (options.snapshot program code execution).json.pretty 0 ++ "\n" ∧
        (options.snapshot program code execution).json.field? "wat" = some code.listing := by
  constructor
  next =>
    intro code other identified otherIdentified same
    apply eq_of_texts identified otherIdentified
    rw [← lines_text identified, ← lines_text otherIdentified, same]
  next =>
    intro code identified nonempty
    refine ⟨splitOn_text identified nonempty, ?_⟩
    intro options program execution json
    exact ⟨CommandLine.Options.stdout_compiled json program code execution,
      CommandLine.Snapshot.field?_wat identified rfl⟩

-- `last = -7`, `last`: the name differs from that of the scratch slot by the dollar sign only.
theorem Code.text_loses_nothing_of_last :
    let last : Slot := .named "last"
    let code : Code := [.declare .scratch, .declare last, .const (-7), .set last, .get last,
      .set .scratch]
    let options : CommandLine.Options := { json := true }
    code.Identified ∧ code ≠ [] ∧
      (code.text.toList.splitOn '\n').map String.ofList =
        ["(local $$last i32)", "(local $last i32)", "(i32.const -7)", "(local.set $last)",
          "(local.get $last)", "(local.set $$last)"] ∧
      (∀ other : Code, other.Identified → other.text = code.text → other = code) ∧
      (options.compiled ⟨[]⟩ code none).stdout =
        (options.snapshot ⟨[]⟩ code none).json.pretty 0 ++ "\n" ∧
      (options.snapshot ⟨[]⟩ code none).json.field? "wat" = some code.listing := by
  intro last code options
  obtain ⟨injective, readable⟩ := text_loses_nothing
  have identified : code.Identified := by decide
  have nonempty : code ≠ [] := by decide
  obtain ⟨split, listed⟩ := readable code identified nonempty
  refine ⟨identified, nonempty, ?_, ?_, listed options ⟨[]⟩ none rfl⟩
  next =>
    rw [split]
    decide
  next =>
    intro other otherIdentified same
    exact injective other code otherIdentified identified same

end StackScript
