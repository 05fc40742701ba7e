/-!
# Signed decimal integers of 64 bits

A token is a number if it starts with a digit, or with a sign and a digit. Its characters are taken
from the left, and the first one that is no digit, or that leads out of the range, is the fault.
-/

namespace LispFront.Text

inductive IntegerFault where
  | invalidDigit
  | tooLarge
  | tooSmall
deriving DecidableEq, Repr

def IntegerFault.message : IntegerFault → String
  | .invalidDigit => "invalid digit found in string"
  | .tooLarge => "number too large to fit in target type"
  | .tooSmall => "number too small to fit in target type"

def isDigit (c : Char) : Bool := '0' ≤ c && c ≤ '9'

def digitValue (c : Char) : Nat := c.toNat - '0'.toNat

def startsNumber : List Char → Bool
  | '-' :: c :: _ => isDigit c
  | '+' :: c :: _ => isDigit c
  | c :: _ => isDigit c
  | [] => false

def accumulate (step : Int → Nat → Int) (fits : Int → Bool) (fault : IntegerFault) :
    Int → List Char → Except IntegerFault Int
  | n, [] => .ok n
  | n, c :: cs =>
    if isDigit c then
      let m := step n (digitValue c)
      if fits m then accumulate step fits fault m cs else .error fault
    else .error .invalidDigit

def natural (cs : List Char) : Except IntegerFault Int :=
  accumulate (fun n d => 10 * n + d) (· ≤ Int64.maxValue.toInt) .tooLarge 0 cs

def negative (cs : List Char) : Except IntegerFault Int :=
  accumulate (fun n d => 10 * n - d) (Int64.minValue.toInt ≤ ·) .tooSmall 0 cs

def integer : List Char → Except IntegerFault Int64
  | '-' :: cs => (negative cs).map Int64.ofInt
  | '+' :: cs => (natural cs).map Int64.ofInt
  | cs => (natural cs).map Int64.ofInt

end LispFront.Text
