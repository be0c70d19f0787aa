set_option autoImplicit false

namespace StackScript

variable {ε ζ α β : Type}

theorem bind_eq_ok {first : Except ε α} {next : α → Except ε β} {last : β} :
    first >>= next = .ok last ↔ ∃ value, first = .ok value ∧ next value = .ok last := by
  cases first <;> simp [bind, Except.bind]

theorem bind_eq_error {first : Except ε α} {next : α → Except ε β} {error : ε} :
    first >>= next = .error error ↔
      first = .error error ∨ ∃ value, first = .ok value ∧ next value = .error error := by
  cases first <;> simp [bind, Except.bind]

@[simp] theorem ok_bind (value : α) (next : α → Except ε β) :
    (Except.ok value : Except ε α) >>= next = next value := rfl

@[simp] theorem error_bind (error : ε) (next : α → Except ε β) :
    (Except.error error : Except ε α) >>= next = .error error := rfl

@[simp] theorem pure_eq_ok (value : α) : (pure value : Except ε α) = .ok value := rfl

-- For results whose values can be compared while their errors cannot.
theorem eq_ok_of_toOption {result : Except ε α} {value : α}
    (found : result.toOption = some value) : result = .ok value := by
  cases result with
  | ok answer => exact congrArg _ (Option.some.inj found)
  | error => cases found

theorem exists_eq_ok {result : Except ε α} (known : result.toOption.isSome = true) :
    ∃ value, result = .ok value := by
  obtain ⟨value, found⟩ := Option.isSome_iff_exists.mp known
  exact ⟨value, eq_ok_of_toOption found⟩

theorem mapError_eq_ok {result : Except ε α} {adapt : ε → ζ} {value : α} :
    result.mapError adapt = .ok value ↔ result = .ok value := by
  cases result with
  | error problem =>
    change Except.error (adapt problem) = .ok value ↔ _
    simp
  | ok found =>
    change Except.ok found = .ok value ↔ _
    simp

theorem mapError_eq_error {result : Except ε α} {adapt : ε → ζ} {problem : ζ} :
    result.mapError adapt = .error problem ↔
      ∃ cause, result = .error cause ∧ adapt cause = problem := by
  cases result with
  | error cause =>
    change Except.error (adapt cause) = .error problem ↔ _
    simp
  | ok found =>
    change Except.ok found = .error problem ↔ _
    simp

theorem exists_of_mem_mapM {read : α → Except ε β} {given : List α} {results : List β}
    (done : given.mapM read = .ok results) {result : β} (member : result ∈ results) :
    ∃ value ∈ given, read value = .ok result := by
  induction given generalizing results with
  | nil =>
    cases done
    simp at member
  | cons first rest ih =>
    rw [List.mapM_cons] at done
    obtain ⟨head, readHead, done⟩ := bind_eq_ok.mp done
    obtain ⟨tail, readTail, done⟩ := bind_eq_ok.mp done
    cases done
    rcases List.mem_cons.mp member with rfl | later
    · exact ⟨first, by simp, readHead⟩
    · obtain ⟨value, inside, same⟩ := ih readTail later
      exact ⟨value, by simp [inside], same⟩

theorem exists_ok_of_mapM {read : α → Except ε β} {given : List α} {results : List β}
    (done : given.mapM read = .ok results) {value : α} (member : value ∈ given) :
    ∃ result, read value = .ok result := by
  induction given generalizing results with
  | nil => simp at member
  | cons first rest ih =>
    rw [List.mapM_cons] at done
    obtain ⟨head, readHead, done⟩ := bind_eq_ok.mp done
    obtain ⟨tail, readTail, -⟩ := bind_eq_ok.mp done
    rcases List.mem_cons.mp member with rfl | later
    next => exact ⟨head, readHead⟩
    next => exact ih readTail later

theorem ne_nil_of_mapM {read : α → Except ε β} {given : List α} {results : List β}
    (done : given.mapM read = .ok results) (nonempty : given ≠ []) : results ≠ [] := by
  cases given with
  | nil => exact absurd rfl nonempty
  | cons first rest =>
    rw [List.mapM_cons] at done
    obtain ⟨head, -, done⟩ := bind_eq_ok.mp done
    obtain ⟨tail, -, done⟩ := bind_eq_ok.mp done
    cases done
    exact List.cons_ne_nil head tail

end StackScript
