import LispFront.Text.Escape

/-!
# Where a quoted text ends

A quote closes a quoted text unless a backslash that is not escaped itself stands in front of it.
-/

namespace LispFront.Text

/-- Whether the character behind a text is escaped, if nothing in the text closes it. -/
def scan : Bool → List Char → Option Bool
  | escaped, [] => some escaped
  | true, _ :: cs => scan false cs
  | false, c :: cs => if c = '"' then none else scan (c == '\\') cs

theorem scan_append (escaped : Bool) (xs ys : List Char) :
    scan escaped (xs ++ ys) = (scan escaped xs).bind (scan · ys) := by
  induction xs generalizing escaped with
  | nil => cases escaped <;> rfl
  | cons x xs ih =>
    cases escaped with
    | true => exact ih false
    | false =>
      by_cases hx : x = '"'
      · simp [scan, hx]
      · simp [scan, hx, ih]

theorem scan_concat_of_escaped {cs : List Char} (h : scan false cs = some true) (c : Char) :
    scan false (cs ++ [c]) = some false := by
  rw [scan_append, h]
  rfl

theorem scan_concat {cs : List Char} {c : Char} (h : scan false cs = some false) (hc : c ≠ '"') :
    scan false (cs ++ [c]) = some (c == '\\') := by
  rw [scan_append, h]
  simp [scan, hc]

theorem scan_escape (cs : List Char) : scan false (escape cs) = some false := by
  fun_induction escape cs with
  | case7 c cs hslash _ _ _ hquote ih =>
    have hc : (c == '\\') = false := beq_false_of_ne hslash
    have hq : c ≠ '"' := hquote
    rw [scan, if_neg hq, hc]
    exact ih
  | _ => simp_all [scan]

end LispFront.Text
