namespace Apportion.Proofs.Outcomes

variable {ε ε' α β : Type}

@[simp]
theorem ok_bind (value : α) (next : α → Except ε β) : (Except.ok value >>= next) = next value := rfl

@[simp]
theorem error_bind (cause : ε) (next : α → Except ε β) :
    (Except.error cause >>= next) = .error cause := rfl

@[simp]
theorem pure_eq_ok (value : α) : (pure value : Except ε α) = .ok value := rfl

@[simp]
theorem throw_eq_error (cause : ε) : (throw cause : Except ε α) = .error cause := rfl

@[simp]
theorem mapError_ok (change : ε → ε') (value : α) :
    (Except.ok value : Except ε α).mapError change = .ok value := rfl

@[simp]
theorem mapError_error (change : ε → ε') (cause : ε) :
    (Except.error cause : Except ε α).mapError change = .error (change cause) := rfl

theorem bind_eq_ok_iff {outcome : Except ε α} {next : α → Except ε β} {result : β} :
    (outcome >>= next) = .ok result ↔ ∃ value, outcome = .ok value ∧ next value = .ok result := by
  cases outcome with
  | error cause => simp
  | ok value => simp

theorem check_bind_eq_ok_iff {check : Except ε Unit} {next : Unit → Except ε β} {result : β} :
    (check >>= next) = .ok result ↔ check = .ok () ∧ next () = .ok result := by
  cases check with
  | error cause => simp
  | ok value => simp

theorem check_bind_eq_error_iff {check : Except ε Unit} {next : Unit → Except ε β} {cause : ε} :
    (check >>= next) = .error cause ↔
      check = .error cause ∨ check = .ok () ∧ next () = .error cause := by
  cases check with
  | error other => simp
  | ok value => simp

theorem mapError_eq_ok_iff {outcome : Except ε α} {change : ε → ε'} {value : α} :
    outcome.mapError change = .ok value ↔ outcome = .ok value := by
  cases outcome with
  | error cause => simp
  | ok value => simp

theorem mapError_eq_error_iff {outcome : Except ε α} {change : ε → ε'} {cause : ε'} :
    outcome.mapError change = .error cause ↔
      ∃ original, outcome = .error original ∧ change original = cause := by
  cases outcome with
  | error original => simp
  | ok value => simp

end Apportion.Proofs.Outcomes
