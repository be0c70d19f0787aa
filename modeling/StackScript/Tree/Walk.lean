import StackScript.CompileError
import StackScript.Tree.Cursor

set_option autoImplicit false

namespace StackScript

def Walk (α : Type) : Type :=
  Cursor → Except CompileError α × Cursor

namespace Walk

variable {α β : Type}

instance : Monad Walk where
  pure value := fun cursor => (.ok value, cursor)
  bind walk next := fun cursor =>
    match walk cursor with
    | (.ok value, moved) => next value moved
    | (.error error, moved) => (.error error, moved)

@[simp] theorem pure_apply (value : α) (cursor : Cursor) :
    (pure value : Walk α) cursor = (.ok value, cursor) := rfl

theorem bind_apply (walk : Walk α) (next : α → Walk β) (cursor : Cursor) :
    (walk >>= next) cursor =
      match walk cursor with
      | (.ok value, moved) => next value moved
      | (.error error, moved) => (.error error, moved) := rfl

def fail (error : CompileError) : Walk α := fun cursor =>
  (.error error, cursor)

def ofExcept (result : Except CompileError α) : Walk α := fun cursor =>
  (result, cursor)

def here : Walk Cursor := fun cursor =>
  (.ok cursor, cursor)

def move (step : Cursor.Move) : Walk Bool := fun cursor =>
  let (moved, after) := cursor.move step
  (.ok moved, after)

def text (source : List Char) : Walk String := fun cursor =>
  (.ok (String.ofList (cursor.span.slice source)), cursor)

def complain (source : List Char) (complaint : Fault.Complaint) : Walk α := fun cursor =>
  (.error (.about complaint cursor.span source), cursor)

def descend (source : List Char) (walk : Walk α) : Walk α := fun cursor =>
  match cursor.move .child with
  | (true, child) =>
    let (result, last) := walk child
    (result, (last.move .parent).2)
  | (false, _) => complain source (.malformed cursor.kind) cursor

def advance (source : List Char) (part : Fault.Part) : Walk Unit := do
  unless ← move .next do
    complain source (.missing part)

end Walk

end StackScript
