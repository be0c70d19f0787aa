import StackScript.Program

set_option autoImplicit false

namespace StackScript

abbrev Names := List String

def Names.define (names : Names) (name : String) : Names :=
  if name ∈ names then names else names ++ [name]

theorem Names.mem_define {names : Names} {name other : String} :
    other ∈ names.define name ↔ other ∈ names ∨ other = name := by
  unfold define
  split
  next known =>
    constructor
    · exact Or.inl
    · rintro (found | rfl)
      · exact found
      · exact known
  next => simp

def Statement.defines (names : Names) : Statement → Names
  | .define _ name _ => names.define name
  | .expression _ _ => names

def Program.definitions (program : Program) : Names :=
  program.statements.foldl Statement.defines []

end StackScript
