import Mathlib.Data.List.TakeWhile

/-!
# Initial segments of lists

A list is cut at the first element that fails a test: what stands before it is known as soon as one
knows a segment that passes and that what follows does not begin with an element that passes.
-/

namespace LispFront

variable {α : Type u} {p : α → Bool} {l rest : List α} (hl : ∀ a ∈ l, p a)
  (hrest : ∀ a ∈ rest.head?, p a = false)
include hl hrest

theorem takeWhile_append_of_stop : (l ++ rest).takeWhile p = l := by
  rw [List.takeWhile_append_of_pos hl]
  cases rest with
  | nil => simp
  | cons a rest => simp [hrest a rfl]

theorem dropWhile_append_of_stop : (l ++ rest).dropWhile p = rest := by
  rw [List.dropWhile_append_of_pos hl]
  cases rest with
  | nil => rfl
  | cons a rest => simp [hrest a rfl]

end LispFront
