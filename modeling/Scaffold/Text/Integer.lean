/-!
# Reading a signed integer

An optional sign and decimal digits, read from left to right into 64 bits. The
first character that is no digit or that leaves the range decides the fault.
-/
namespace Scaffold.Text

inductive IntegerFault
  | empty
  | invalidDigit
  | tooLarge
  | tooSmall
  deriving DecidableEq, Repr

namespace IntegerFault

def message : IntegerFault → String
  | empty => "cannot parse integer from empty string"
  | invalidDigit => "invalid digit found in string"
  | tooLarge => "number too large to fit in target type"
  | tooSmall => "number too small to fit in target type"

end IntegerFault

/-- Reads digits onto a value, upwards or downwards. -/
def readDigits (down : Bool) (value : Int) : List Char → Except IntegerFault Int
  | [] => .ok value
  | c :: cs =>
    if c.isDigit then
      let digit : Int := c.toNat - '0'.toNat
      let next := if down then 10 * value - digit else 10 * value + digit
      if next < -2 ^ 63 then .error .tooSmall
      else if 2 ^ 63 ≤ next then .error .tooLarge
      else readDigits down next cs
    else .error .invalidDigit

def readInteger : List Char → Except IntegerFault Int
  | [] => .error .empty
  | ['+'] => .error .invalidDigit
  | ['-'] => .error .invalidDigit
  | '+' :: cs => readDigits false 0 cs
  | '-' :: cs => readDigits true 0 cs
  | cs => readDigits false 0 cs

end Scaffold.Text
