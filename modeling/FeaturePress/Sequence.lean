/-! Lists that begin with other lists. -/

namespace FeaturePress.Sequence

variable {α : Type} [DecidableEq α]

/-- What follows `lead` when a list begins with it. -/
def after? : (lead list : List α) → Option (List α)
  | [], list => some list
  | _ :: _, [] => none
  | a :: lead, b :: list => if a = b then after? lead list else none

/-- A list that begins with `lead` is `lead` and what follows it. -/
theorem append_eq_of_after? {lead list tail : List α} (h : after? lead list = some tail)
    : lead ++ tail = list := by
  induction lead generalizing list with
  | nil => simpa [after?] using h.symm
  | cons a lead ih =>
      cases list with
      | nil => simp [after?] at h
      | cons b list =>
          simp only [after?] at h
          split at h
          · next heq => simp [heq, ih h]
          · simp at h

/-- What a list begins with can be taken off again. -/
theorem after?_append (lead tail : List α) : after? lead (lead ++ tail) = some tail := by
  induction lead with
  | nil => rfl
  | cons a lead ih => simp [after?, ih]

/-- What a list begins with is taken off exactly when it stands there. -/
theorem after?_eq_some_iff {lead list tail : List α}
    : after? lead list = some tail ↔ lead ++ tail = list := by
  constructor
  · exact append_eq_of_after?
  · rintro rfl
    exact after?_append lead tail

end FeaturePress.Sequence
