import LispFront.Reader.Token
import LispFront.Text.CharClass

/-!
# Reading back the name of a character

The name of a character denotes it, and is a run of letters and digits or a single other character.
-/

namespace LispFront.Text

theorem char_charName (c : Char) : Token.char (charName c).toList = .ok (.char c) := by
  unfold charName
  split
  · rfl
  · rfl
  · rfl
  · rfl
  · simp [Token.char, charOfName?]

theorem charName_cases (c : Char) :
    (∃ d ds, (charName c).toList = d :: ds ∧ isAlphanumeric d ∧ ∀ x ∈ ds, isAlphanumeric x) ∨
      ((charName c).toList = [c] ∧ isAlphanumeric c = false) := by
  unfold charName
  split
  · exact .inl ⟨_, _, rfl, rfl, List.all_eq_true.mp rfl⟩
  · exact .inl ⟨_, _, rfl, rfl, List.all_eq_true.mp rfl⟩
  · exact .inl ⟨_, _, rfl, rfl, List.all_eq_true.mp rfl⟩
  · exact .inl ⟨_, _, rfl, rfl, List.all_eq_true.mp rfl⟩
  · have hname : (String.singleton c).toList = [c] := String.toList_singleton c
    cases hc : isAlphanumeric c with
    | true => exact .inl ⟨c, [], hname, hc, by simp⟩
    | false => exact .inr ⟨hname, rfl⟩

end LispFront.Text
