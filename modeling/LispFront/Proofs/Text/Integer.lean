import LispFront.Text.Integer
import Mathlib.Data.Nat.Digits.Defs

/-!
# The integers that texts of digits denote

A run of digits denotes the sum of its digits, each times its power of ten. Accumulating the digits
from the left gives that number if it is in the range, and no number on the way leaves the range
before; else it gives the fault of the range. So the digits of a printed number are read back.
-/

namespace LispFront.Text

theorem mem_digits_of_isDigit {c : Char} (h : isDigit c) :
    c ∈ ['0', '1', '2', '3', '4', '5', '6', '7', '8', '9'] := by
  have hc : Char.ofNat c.toNat = c := Char.ofNat_toNat c
  simp only [isDigit, Bool.and_eq_true, decide_eq_true_eq, Char.le_def,
    UInt32.le_iff_toNat_le] at h
  have hlow : 48 ≤ c.toNat := h.1
  have hhigh : c.toNat ≤ 57 := h.2
  have hcases : c.toNat = 48 ∨ c.toNat = 49 ∨ c.toNat = 50 ∨ c.toNat = 51 ∨ c.toNat = 52 ∨
      c.toNat = 53 ∨ c.toNat = 54 ∨ c.toNat = 55 ∨ c.toNat = 56 ∨ c.toNat = 57 := by
    omega
  rw [← hc]
  rcases hcases with h | h | h | h | h | h | h | h | h | h <;> rw [h] <;> decide

theorem isDigit_of_mem_toDigits {n : Nat} {c : Char} (h : c ∈ Nat.toDigits 10 n) : isDigit c := by
  have hc := Nat.isDigit_of_mem_toDigits (by decide) (by decide) h
  simpa [isDigit, Char.isDigit, Char.le_def, and_comm] using hc

def decimal (ds : List Char) : Nat := Nat.ofDigits 10 (ds.reverse.map digitValue)

theorem ofDigitChars_eq_decimal (ds : List Char) : Nat.ofDigitChars 10 ds 0 = decimal ds := by
  induction ds with
  | nil => rfl
  | cons c ds ih =>
    have hhead : decimal (c :: ds) = decimal ds + 10 ^ ds.length * digitValue c := by
      simp [decimal, Nat.ofDigits_append]
    rw [Nat.ofDigitChars_cons, Nat.ofDigitChars_eq_ofDigitChars_zero, ih, hhead]
    change 10 ^ ds.length * (10 * 0 + digitValue c) + decimal ds = _
    rw [Nat.mul_zero, Nat.zero_add, Nat.add_comm]

theorem decimal_toDigits (n : Nat) : decimal (Nat.toDigits 10 n) = n := by
  rw [← ofDigitChars_eq_decimal, Nat.ofDigitChars_ten_toDigits]

theorem le_ofDigitChars (ds : List Char) (k : Nat) : k ≤ Nat.ofDigitChars 10 ds k := by
  induction ds generalizing k with
  | nil => simp
  | cons c ds ih =>
    rw [Nat.ofDigitChars_cons]
    have h := ih (10 * k + (c.toNat - '0'.toNat))
    omega

section Accumulate

variable {step : Int → Nat → Int} {fits : Int → Bool} {fault : IntegerFault} (sign : Nat → Int)
  {bound : Nat} (hstep : ∀ k d, step (sign k) d = sign (10 * k + d))
  (hfits : ∀ k, fits (sign k) ↔ k ≤ bound) {ds : List Char} (hds : ∀ c ∈ ds, isDigit c)
include hstep hfits hds

theorem accumulate_digits {k : Nat} (hk : k ≤ bound) (cs : List Char) :
    accumulate step fits fault (sign k) (ds ++ cs) =
      if Nat.ofDigitChars 10 ds k ≤ bound then
        accumulate step fits fault (sign (Nat.ofDigitChars 10 ds k)) cs
      else .error fault := by
  induction ds generalizing k with
  | nil => rw [Nat.ofDigitChars_nil, if_pos hk, List.nil_append]
  | cons c ds ih =>
    obtain ⟨hc, hds⟩ := List.forall_mem_cons.mp hds
    rw [List.cons_append, accumulate, if_pos hc, hstep, Nat.ofDigitChars_cons]
    change (if fits (sign (10 * k + digitValue c)) then _ else _) =
      if Nat.ofDigitChars 10 ds (10 * k + digitValue c) ≤ _ then _ else _
    by_cases hfit : 10 * k + digitValue c ≤ bound
    · rw [if_pos ((hfits _).mpr hfit)]
      exact ih hds hfit
    · have hle := le_ofDigitChars ds (10 * k + digitValue c)
      rw [if_neg (mt (hfits _).mp hfit), if_neg (by omega)]

theorem accumulate_token {cs : List Char} (hcs : ∀ c ∈ cs.head?, ¬isDigit c) :
    accumulate step fits fault (sign 0) (ds ++ cs) =
      if decimal ds ≤ bound then
        if cs = [] then .ok (sign (decimal ds)) else .error .invalidDigit
      else .error fault := by
  rw [accumulate_digits sign hstep hfits hds (Nat.zero_le _), ofDigitChars_eq_decimal]
  congr 1
  cases cs with
  | nil => rfl
  | cons c cs => rw [accumulate, if_neg (hcs c rfl), if_neg (List.cons_ne_nil c cs)]

end Accumulate

section Digits

variable {ds cs : List Char} (hds : ∀ c ∈ ds, isDigit c) (hcs : ∀ c ∈ cs.head?, ¬isDigit c)
include hds hcs

theorem natural_token : natural (ds ++ cs) =
    if decimal ds ≤ 2 ^ 63 - 1 then if cs = [] then .ok (decimal ds : Int) else .error .invalidDigit
    else .error .tooLarge := by
  refine accumulate_token (fun k => (k : Int)) (fun k d => ?_) (fun k => ?_) hds hcs
  · omega
  · rw [decide_eq_true_eq, Int64.toInt_maxValue]
    omega

theorem negative_token : negative (ds ++ cs) =
    if decimal ds ≤ 2 ^ 63 then if cs = [] then .ok (-(decimal ds : Int)) else .error .invalidDigit
    else .error .tooSmall := by
  refine accumulate_token (fun k => -(k : Int)) (fun k d => ?_) (fun k => ?_) hds hcs
  · omega
  · rw [decide_eq_true_eq, Int64.toInt_minValue]
    omega

end Digits

theorem ne_sign_of_isDigit {c : Char} (h : isDigit c) : c ≠ '-' ∧ c ≠ '+' := by
  constructor
  · rintro rfl
    exact absurd h (by decide)
  · rintro rfl
    exact absurd h (by decide)

inductive Sign where
  | none
  | plus
  | minus

namespace Sign

def text : Sign → String
  | none => ""
  | plus => "+"
  | minus => "-"

def apply : Sign → Nat → Int
  | minus, n => -n
  | _, n => n

def overflow : Sign → IntegerFault
  | minus => .tooSmall
  | _ => .tooLarge

end Sign

def InRange (n : Int) : Prop := -2 ^ 63 ≤ n ∧ n ≤ 2 ^ 63 - 1

instance (n : Int) : Decidable (InRange n) := inferInstanceAs (Decidable (_ ∧ _))

theorem inRange_toInt (n : Int64) : InRange n.toInt := by
  have hle := n.toInt_le
  have hge := n.minValue_le_toInt
  rw [Int64.toInt_maxValue] at hle
  rw [Int64.toInt_minValue] at hge
  exact ⟨hge, hle⟩

theorem toInt_ofInt_of_inRange {n : Int} (h : InRange n) : (Int64.ofInt n).toInt = n :=
  Int64.toInt_ofInt_of_le h.1 (by unfold InRange at h; omega)

theorem startsNumber_token (sign : Sign) {d : Char} (hd : isDigit d) (cs : List Char) :
    startsNumber (sign.text.toList ++ d :: cs) := by
  cases sign with
  | none => simp [Sign.text, startsNumber, ne_sign_of_isDigit hd, hd]
  | plus | minus => exact hd

theorem integer_token (sign : Sign) {d : Char} {ds cs : List Char}
    (hds : ∀ c ∈ d :: ds, isDigit c) (hcs : ∀ c ∈ cs.head?, ¬isDigit c) :
    integer (sign.text.toList ++ (d :: ds ++ cs)) =
      if InRange (sign.apply (decimal (d :: ds))) then
        if cs = [] then .ok (Int64.ofInt (sign.apply (decimal (d :: ds)))) else .error .invalidDigit
      else .error sign.overflow := by
  have hunsigned : (natural (d :: ds ++ cs)).map Int64.ofInt =
      if InRange (decimal (d :: ds)) then
        if cs = [] then .ok (Int64.ofInt (decimal (d :: ds))) else .error .invalidDigit
      else .error .tooLarge := by
    have hrange : InRange (decimal (d :: ds) : Int) ↔ decimal (d :: ds) ≤ 2 ^ 63 - 1 := by
      unfold InRange
      omega
    rw [natural_token hds hcs, apply_ite (Except.map _), apply_ite (Except.map _)]
    simp only [hrange]
    rfl
  cases sign with
  | none =>
    have hsign := ne_sign_of_isDigit (hds d List.mem_cons_self)
    have hinteger : integer (d :: ds ++ cs) = (natural (d :: ds ++ cs)).map Int64.ofInt := by
      simp [integer, hsign]
    exact hinteger.trans hunsigned
  | plus => exact hunsigned
  | minus =>
    have hrange : InRange (-(decimal (d :: ds) : Int)) ↔ decimal (d :: ds) ≤ 2 ^ 63 := by
      unfold InRange
      omega
    change (negative (d :: ds ++ cs)).map _ = if InRange (-(decimal (d :: ds) : Int)) then _ else _
    rw [negative_token hds hcs, apply_ite (Except.map _), apply_ite (Except.map _)]
    simp only [hrange]
    rfl

theorem toList_toString (n : Int) : ∃ (sign : Sign) (d : Char) (ds : List Char),
    (∀ c ∈ d :: ds, isDigit c) ∧ sign.apply (decimal (d :: ds)) = n ∧
      (toString n).toList = sign.text.toList ++ d :: ds := by
  have hcons (k : Nat) : ∃ d ds, Nat.toDigits 10 k = d :: ds :=
    List.exists_cons_of_ne_nil Nat.toDigits_ne_nil
  rw [Int.toString_eq_repr, Int.repr_eq_if]
  split
  · obtain ⟨d, ds, hds⟩ := hcons n.toNat
    refine ⟨.none, d, ds, fun c hc => isDigit_of_mem_toDigits (hds ▸ hc), ?_, ?_⟩
    · rw [← hds, decimal_toDigits]
      exact Int.toNat_of_nonneg (by assumption)
    · rw [Nat.toList_repr, hds]
      rfl
  · obtain ⟨d, ds, hds⟩ := hcons (-n).toNat
    refine ⟨.minus, d, ds, fun c hc => isDigit_of_mem_toDigits (hds ▸ hc), ?_, ?_⟩
    · rw [← hds, decimal_toDigits, Sign.apply]
      omega
    · rw [String.toList_append, Nat.toList_repr, hds]
      rfl

theorem startsNumber_toString (n : Int) : startsNumber (toString n).toList := by
  obtain ⟨sign, d, ds, hds, -, htext⟩ := toList_toString n
  rw [htext]
  exact startsNumber_token sign (hds d List.mem_cons_self) ds

theorem integer_toString (n : Int64) : integer (toString n.toInt).toList = .ok n := by
  obtain ⟨sign, d, ds, hds, hn, htext⟩ := toList_toString n.toInt
  have hend : ∀ c ∈ ([] : List Char).head?, ¬isDigit c := by simp
  have htoken := integer_token sign hds hend
  rwa [List.append_nil, hn, if_pos (inRange_toInt n), if_pos rfl, Int64.ofInt_toInt,
    ← htext] at htoken

end LispFront.Text
