import Nibble.Text.HiddenTable

/-! # Quoted text

Text in quotation marks as the messages show it. Apostrophes enclose it, unless it holds an
apostrophe and no double quote. Line feed, carriage return and tab have short escapes, and the
other hidden characters are written as two, four or eight hexadecimal digits.
-/

namespace Nibble.Text

/-- A number in lower-case hexadecimal, filled up with zeros to a given number of digits. -/
def hex (width n : Nat) : List Char :=
  let digits := Nat.toDigits 16 n
  List.replicate (width - digits.length) '0' ++ digits

def escapeHidden (c : Char) : List Char :=
  if c = '\n' then ['\\', 'n']
  else if c = '\r' then ['\\', 'r']
  else if c = '\t' then ['\\', 't']
  else if c.toNat < 0x100 then '\\' :: 'x' :: hex 2 c.toNat
  else if c.toNat < 0x10000 then '\\' :: 'u' :: hex 4 c.toNat
  else '\\' :: 'U' :: hex 8 c.toNat

def quoteChar (mark c : Char) : List Char :=
  if c = mark || c = '\\' then ['\\', c]
  else if inRanges hidden c then escapeHidden c
  else [c]

def quoted (s : String) : String :=
  let chars := s.toList
  let mark := if chars.contains '\'' && !chars.contains '"' then '"' else '\''
  String.ofList (mark :: chars.flatMap (quoteChar mark) ++ [mark])

end Nibble.Text
