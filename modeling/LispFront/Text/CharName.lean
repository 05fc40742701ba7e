/-!
# Names of characters

After the backslash of a character literal stands the character itself or a name of more than one
character: one of six words, or `u` with the four hexadecimal digits of a scalar value.
-/

namespace LispFront.Text

def hexDigit? (c : Char) : Option Nat :=
  if '0' ≤ c ∧ c ≤ '9' then some (c.toNat - '0'.toNat)
  else if 'a' ≤ c ∧ c ≤ 'f' then some (c.toNat - 'a'.toNat + 10)
  else if 'A' ≤ c ∧ c ≤ 'F' then some (c.toNat - 'A'.toNat + 10)
  else none

def hexNumber? (digits : List Char) : Option Nat :=
  digits.foldlM (fun n c => (hexDigit? c).map (16 * n + ·)) 0

def scalar? (n : Nat) : Option Char :=
  if n.isValidChar then some (Char.ofNat n) else none

def charOfName? : List Char → Option Char
  | [c] => some c
  | ['u', a, b, c, d] => hexNumber? [a, b, c, d] >>= scalar?
  | cs =>
    match String.ofList cs with
    | "newline" => some '\n'
    | "space" => some ' '
    | "tab" => some '\t'
    | "return" => some '\r'
    | "formfeed" => some '\x0c'
    | "backspace" => some '\x08'
    | _ => none

/-- Four characters are written by name, all others as they are. -/
def charName (c : Char) : String :=
  match c with
  | '\n' => "newline"
  | ' ' => "space"
  | '\t' => "tab"
  | '\r' => "return"
  | c => String.singleton c

end LispFront.Text
