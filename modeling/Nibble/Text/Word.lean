/-! # Words and numerals

Words and numerals of the source language are ASCII. A numeral may have leading zeros, which count
towards the digits that one may have.
-/

namespace Nibble.Text

/-- A letter, a digit or an underscore of ASCII. -/
def isWordChar (c : Char) : Bool :=
  c.isAlphanum || c = '_'

/-- A word has at least one character, all of them word characters. -/
def isWord (s : List Char) : Bool :=
  !s.isEmpty && s.all isWordChar

/-- A numeral has at least one character, all of them ASCII digits. -/
def isNumeral (s : List Char) : Bool :=
  !s.isEmpty && s.all Char.isDigit

/-- The value of a decimal digit of ASCII. -/
def digitValue (c : Char) : Nat :=
  c.toNat - '0'.toNat

/-- The value of a row of digits, the most significant first. -/
def decimal (digits : List Nat) : Nat :=
  digits.foldl (fun n d => 10 * n + d) 0

/-- The greatest number of digits that a numeral may have. -/
def maxDigits : Nat := 4300

/-- The value of a numeral, unless it has too many digits. -/
def numeralValue? (s : List Char) : Option Nat :=
  if s.length ≤ maxDigits then some (decimal (s.map digitValue)) else none

theorem numeralValue?_eq_none_iff {s : List Char} :
    numeralValue? s = none ↔ maxDigits < s.length := by
  unfold numeralValue?
  split <;> simp <;> omega

end Nibble.Text
