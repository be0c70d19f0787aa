set_option autoImplicit false

namespace StackScript.Text

def byteLength : List Char → Nat
  | [] => 0
  | first :: rest => first.utf8Size + byteLength rest

@[simp] theorem byteLength_append (left right : List Char) :
    byteLength (left ++ right) = byteLength left + byteLength right := by
  induction left with
  | nil => simp [byteLength]
  | cons first rest ih => simp [byteLength, ih, Nat.add_assoc]

/-- Cuts a text after `offset` bytes. There is no cut inside a character or past the end. -/
def cut? : Nat → List Char → Option (List Char × List Char)
  | 0, text => some ([], text)
  | _ + 1, [] => none
  | offset + 1, first :: rest =>
    if first.utf8Size ≤ offset + 1 then
      (cut? (offset + 1 - first.utf8Size) rest).map fun (left, right) => (first :: left, right)
    else none

theorem cut?_byteLength (left right : List Char) :
    cut? (byteLength left) (left ++ right) = some (left, right) := by
  induction left with
  | nil => simp [byteLength, cut?]
  | cons first rest ih =>
    obtain ⟨size, same⟩ : ∃ size, byteLength (first :: rest) = size + 1 :=
      ⟨byteLength (first :: rest) - 1, by
        have := first.utf8Size_pos
        simp only [byteLength]
        omega⟩
    have enough : first.utf8Size ≤ size + 1 := by
      simp only [byteLength] at same
      omega
    have left_over : size + 1 - first.utf8Size = byteLength rest := by
      simp only [byteLength] at same
      omega
    rw [same, List.cons_append, cut?, if_pos enough, left_over, ih]
    rfl

theorem cut?_eq_some {offset : Nat} {text left right : List Char}
    (found : cut? offset text = some (left, right)) :
    text = left ++ right ∧ byteLength left = offset := by
  induction text generalizing offset left right with
  | nil =>
    cases offset with
    | zero => simp_all [cut?, byteLength]
    | succ offset => simp [cut?] at found
  | cons first rest ih =>
    cases offset with
    | zero =>
      simp only [cut?, Option.some.injEq, Prod.mk.injEq] at found
      simp [← found.1, ← found.2, byteLength]
    | succ offset =>
      rw [cut?] at found
      split at found
      next enough =>
        obtain ⟨⟨before, after⟩, deeper, same⟩ := Option.map_eq_some_iff.mp found
        simp only [Prod.mk.injEq] at same
        obtain ⟨text_eq, length_eq⟩ := ih deeper
        simp only [← same.1, ← same.2, text_eq, List.cons_append, byteLength, length_eq]
        exact ⟨trivial, by omega⟩
      next => simp at found

def before : Nat → List Char → List Char
  | _, [] => []
  | offset, first :: rest =>
    if offset = 0 then [] else first :: before (offset - first.utf8Size) rest

@[simp] theorem before_byteLength (left right : List Char) :
    before (byteLength left) (left ++ right) = left := by
  induction left with
  | nil => cases right <;> simp [byteLength, before]
  | cons first rest ih =>
    have positive := first.utf8Size_pos
    have nonzero : ¬ first.utf8Size + byteLength rest = 0 := by omega
    rw [byteLength, List.cons_append, before, if_neg nonzero, Nat.add_sub_cancel_left, ih]

def lastLine (text : List Char) : List Char :=
  (text.reverse.takeWhile (· != '\n')).reverse

def firstLine (text : List Char) : List Char :=
  text.takeWhile (· != '\n')

end StackScript.Text
