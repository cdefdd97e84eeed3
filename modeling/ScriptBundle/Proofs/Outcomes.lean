/-!
# Outcomes that may be errors

When a chain of steps, each of which may fail, comes to a value, and when two such
chains come to the same.
-/

namespace ScriptBundle

variable {ε ε' α β γ : Type}

@[simp]
theorem ok_bind (value : α) (next : α → Except ε β) : Except.ok value >>= next = next value := rfl

@[simp]
theorem error_bind (error : ε) (next : α → Except ε β) :
    Except.error error >>= next = .error error := rfl

@[simp]
theorem mapError_ok (value : α) (wrap : ε → ε') :
    (Except.ok value : Except ε α).mapError wrap = .ok value := rfl

@[simp]
theorem mapError_error (error : ε) (wrap : ε → ε') :
    (Except.error error : Except ε α).mapError wrap = .error (wrap error) := rfl

@[simp]
theorem bind_eq_ok_iff {outcome : Except ε α} {next : α → Except ε β} {result : β} :
    outcome >>= next = .ok result ↔ ∃ value, outcome = .ok value ∧ next value = .ok result := by
  cases outcome with
  | error error => simp
  | ok value => simp

@[simp]
theorem pure_eq_ok_iff {value result : α} :
    (pure value : Except ε α) = .ok result ↔ value = result := by
  simp [pure, Except.pure]

@[simp]
theorem throw_ne_ok (error : ε) (result : α) : (throw error : Except ε α) ≠ .ok result := by
  simp [throw, throwThe, MonadExceptOf.throw]

@[simp]
theorem mapError_eq_ok_iff {outcome : Except ε α} {wrap : ε → ε'} {result : α} :
    outcome.mapError wrap = .ok result ↔ outcome = .ok result := by
  cases outcome with
  | error error => simp
  | ok value => simp

theorem bind_eq_error_iff {outcome : Except ε α} {next : α → Except ε β} {error : ε} :
    outcome >>= next = .error error ↔
      outcome = .error error ∨ ∃ value, outcome = .ok value ∧ next value = .error error := by
  cases outcome with
  | error error => simp
  | ok value => simp

theorem mapError_eq_error_iff {outcome : Except ε α} {wrap : ε → ε'} {error : ε'} :
    outcome.mapError wrap = .error error ↔
      ∃ cause, outcome = .error cause ∧ wrap cause = error := by
  cases outcome with
  | error cause => simp
  | ok value => simp

theorem map_eq_error_iff {outcome : Except ε α} {change : α → β} {error : ε} :
    outcome.map change = .error error ↔ outcome = .error error := by
  cases outcome with
  | error cause => simp [Except.map]
  | ok value => simp [Except.map]

theorem mapError_map (outcome : Except ε α) (change : α → β) (wrap : ε → ε') :
    (outcome.map change).mapError wrap = (outcome.mapError wrap).map change := by
  cases outcome with
  | error cause => rfl
  | ok value => rfl

theorem map_then_bind (outcome : Except ε α) (change : α → β) (next : β → Except ε γ) :
    outcome.map change >>= next = outcome >>= fun value => next (change value) := by
  cases outcome with
  | error error => rfl
  | ok value => rfl

/-- A change of what the next step gives is a change of what both steps give. -/
theorem bind_eq_map_bind {outcome : Except ε α} {next : α → Except ε β} {changed : α → Except ε γ}
    {change : β → γ} (hchanged : ∀ value, changed value = (next value).map change) :
    outcome >>= changed = (outcome >>= next).map change := by
  cases outcome with
  | error error => rfl
  | ok value => exact hchanged value

/-- An outcome whose value has been tested is one. -/
theorem exists_eq_ok_of_any (outcome : Except ε α) (property : α → Bool)
    (hany : outcome.toOption.any property = true) :
    ∃ value, outcome = .ok value ∧ property value = true := by
  cases outcome with
  | error error => cases hany
  | ok value => exact ⟨value, rfl, hany⟩

/-- Both outcomes are the same error, or both are values that are related. -/
def Matches (related : α → β → Prop) : Except ε α → Except ε β → Prop
  | .ok left, .ok right => related left right
  | .error left, .error right => left = right
  | _, _ => False

theorem Matches.cases {related : α → β → Prop} {left : Except ε α} {right : Except ε β}
    (hmatches : Matches related left right) :
    (∃ error, left = .error error ∧ right = .error error) ∨
      ∃ first second, left = .ok first ∧ right = .ok second ∧ related first second := by
  cases left with
  | error error =>
      cases right with
      | error error' => exact .inl ⟨error, rfl, congrArg _ (Eq.symm hmatches)⟩
      | ok second => exact hmatches.elim
  | ok first =>
      cases right with
      | error error' => exact hmatches.elim
      | ok second => exact .inr ⟨first, second, rfl, rfl, hmatches⟩

theorem Matches.bind {α' β' : Type} {related : α → β → Prop} {related' : α' → β' → Prop}
    {left : Except ε α} {right : Except ε β} {nextLeft : α → Except ε α'}
    {nextRight : β → Except ε β'} (hmatches : Matches related left right)
    (hnext : ∀ first second, related first second →
      Matches related' (nextLeft first) (nextRight second)) :
    Matches related' (left >>= nextLeft) (right >>= nextRight) := by
  rcases hmatches.cases with ⟨error, rfl, rfl⟩ | ⟨first, second, rfl, rfl, hrelated⟩
  · rfl
  · exact hnext first second hrelated

end ScriptBundle
