import LispFront.Proofs.Reader.Spans

/-!
# Integers as tokens

A text that is one token is read as the form that the token denotes, or it fails at its start. So
digits, with or without a sign, are read as the number that they denote if it is in range, and
digits that something else follows within the token are no form at all.
-/

namespace LispFront

open Text

theorem read_token {cs : List Char} (h : IsToken cs) :
    read (String.ofList cs) = match Token.form cs with
      | .ok f => .ok [f]
      | .error fault => .error ⟨fault, 0⟩ := by
  have hend : ∀ c ∈ ([] : List Char).head?, continuesToken c = false := by simp
  have hread := Reader.State.readRest_token h .start ⟨[], []⟩ hend
  rw [List.append_nil] at hread
  rw [read, String.toList_ofList]
  refine hread.trans ?_
  cases Token.form cs <;> rfl

theorem Token.form_number (sign : Sign) {d : Char} {ds cs : List Char}
    (hds : ∀ c ∈ d :: ds, isDigit c) (hcs : ∀ c ∈ cs.head?, ¬isDigit c) :
    form (sign.text.toList ++ (d :: ds ++ cs)) =
      if InRange (sign.apply (decimal (d :: ds))) then
        if cs = [] then .ok (.number (Int64.ofInt (sign.apply (decimal (d :: ds)))))
        else .error (.badNumber .invalidDigit)
      else .error (.badNumber sign.overflow) := by
  have hstart := startsNumber_token sign (hds d List.mem_cons_self) (ds ++ cs)
  rw [form, List.cons_append, if_pos hstart, ← List.cons_append, integer_token sign hds hcs]
  by_cases hrange : InRange (sign.apply (decimal (d :: ds)))
  · simp only [if_pos hrange]
    by_cases hend : cs = []
    · simp only [if_pos hend]
    · simp only [if_neg hend]
  · simp only [if_neg hrange]

/-- Behind any sign, digits are read as the number that they denote, or they are at fault because it
is out of range; and whatever else the token has behind its first digits is at fault, unless the
digits in front of it are already. -/
theorem read_integer (sign : Sign) :
    (∀ ds : List Char, ds ≠ [] → (∀ c ∈ ds, isDigit c) →
      if InRange (sign.apply (decimal ds)) then
        ∃ n : Int64, n.toInt = sign.apply (decimal ds) ∧
          read (sign.text ++ String.ofList ds) = .ok [.number n]
      else read (sign.text ++ String.ofList ds) = .error ⟨.badNumber sign.overflow, 0⟩) ∧
    ∀ (d : Char) (cs : List Char), isDigit d → (∀ c ∈ cs, continuesToken c) →
      (∃ c ∈ cs, ¬isDigit c) →
      read (sign.text ++ String.ofList (d :: cs)) =
        .error ⟨.badNumber (if InRange (sign.apply (decimal (d :: cs.takeWhile isDigit)))
          then .invalidDigit else sign.overflow), 0⟩ := by
  have htext (cs : List Char) : sign.text ++ String.ofList cs =
      String.ofList (sign.text.toList ++ cs) := by simp
  constructor
  · intro ds hne hds
    obtain ⟨d, ds, rfl⟩ := List.exists_cons_of_ne_nil hne
    obtain ⟨hd, hds'⟩ := List.forall_mem_cons.mp hds
    have hend : ∀ c ∈ ([] : List Char).head?, ¬isDigit c := by simp
    have htoken := Token.isToken_number sign hd fun c hc =>
      Token.continuesToken_of_isDigit (hds' c hc)
    have hform := Token.form_number sign hds hend
    rw [List.append_nil, if_pos rfl] at hform
    rw [htext, read_token htoken, hform]
    split
    · rename_i hrange
      exact ⟨_, toInt_ofInt_of_inRange hrange, rfl⟩
    · rfl
  · rintro d cs hd hcs ⟨c, hc, hother⟩
    -- the digits at the front end before the token does
    have hsplit : cs.takeWhile isDigit ++ cs.dropWhile isDigit = cs :=
      List.takeWhile_append_dropWhile
    have hds : ∀ c ∈ d :: cs.takeWhile isDigit, isDigit c :=
      List.forall_mem_cons.mpr ⟨hd, fun c hc => List.mem_takeWhile_imp hc⟩
    have hrest : ∀ c ∈ (cs.dropWhile isDigit).head?, ¬isDigit c := by
      have hhead := List.head?_dropWhile_not isDigit cs
      intro c hc
      rw [Option.mem_def.mp hc] at hhead
      simpa using hhead
    have hne : cs.dropWhile isDigit ≠ [] := fun hnil =>
      hother (List.dropWhile_eq_nil_iff.mp hnil c hc)
    have hform := Token.form_number sign hds hrest
    rw [List.cons_append, hsplit, if_neg hne] at hform
    rw [htext, read_token (Token.isToken_number sign hd hcs), hform]
    by_cases hrange : InRange (sign.apply (decimal (d :: cs.takeWhile isDigit)))
    · simp only [if_pos hrange]
    · simp only [if_neg hrange]

theorem read_integer_at_bounds :
    (∃ n : Int64, n.toInt = -9223372036854775808 ∧
      read "-009223372036854775808" = .ok [.number n]) ∧
      read "+9223372036854775808" = .error ⟨.badNumber .tooLarge, 0⟩ ∧
      read "-9223372036854775809" = .error ⟨.badNumber .tooSmall, 0⟩ ∧
      read "+1a2" = .error ⟨.badNumber .invalidDigit, 0⟩ ∧
      read "9223372036854775808/x" = .error ⟨.badNumber .tooLarge, 0⟩ := by
  refine ⟨?_, ?_, ?_, ?_, ?_⟩
  · have h := (read_integer .minus).1 "009223372036854775808".toList (by decide)
      (List.all_eq_true.mp rfl)
    rwa [if_pos (by decide)] at h
  · have h := (read_integer .plus).1 "9223372036854775808".toList (by decide)
      (List.all_eq_true.mp rfl)
    rwa [if_neg (by decide)] at h
  · have h := (read_integer .minus).1 "9223372036854775809".toList (by decide)
      (List.all_eq_true.mp rfl)
    rwa [if_neg (by decide)] at h
  · have h := (read_integer .plus).2 '1' ['a', '2'] rfl (List.all_eq_true.mp rfl)
      ⟨'a', by simp, by decide⟩
    rwa [if_pos (by decide)] at h
  · have h := (read_integer .none).2 '9' "223372036854775808/x".toList rfl
      (List.all_eq_true.mp rfl) ⟨'/', by simp, by decide⟩
    rwa [if_neg (by decide)] at h

end LispFront
