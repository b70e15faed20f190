import Nibble.Text.Blank
import Nibble.Text.DecimalTable
import Nibble.Text.Word

/-! # Integers

An integer as an option's value: digits of any script with an optional sign, an underscore allowed
between two digits, and white space around.
-/

namespace Nibble.Text

/-- The value of a decimal digit of any script. -/
def decimalDigit? (c : Char) : Option Nat :=
  (decimalZeros.find? fun first => first ≤ c.toNat && c.toNat < first + 10).map (c.toNat - ·)

/-- The digits of a row in which single underscores may separate them. -/
def separatedDigits? : List Char → Option (List Nat)
  | [] => none
  | [c] => (decimalDigit? c).map ([·])
  | c :: '_' :: rest => return (← decimalDigit? c) :: (← separatedDigits? rest)
  | c :: rest => return (← decimalDigit? c) :: (← separatedDigits? rest)

/-- The white space that may surround an integer; the information separators are none. -/
def isIntegerBlank (c : Char) : Bool :=
  isAsciiBlank c || (0x80 ≤ c.toNat && isBlank c)

/-- Splits a sign from the digits after it; the first part tells whether the sign is a minus. -/
def splitSign : List Char → Bool × List Char
  | '-' :: rest => (true, rest)
  | '+' :: rest => (false, rest)
  | s => (false, s)

def integer? (s : String) : Option Int :=
  let (negative, body) := splitSign (trimEnd isIntegerBlank (s.toList.dropWhile isIntegerBlank))
  match separatedDigits? body with
  | some digits =>
    if digits.length ≤ maxDigits then
      some (if negative then -(decimal digits : Int) else decimal digits)
    else none
  | none => none

end Nibble.Text
