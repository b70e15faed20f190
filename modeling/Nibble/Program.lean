import Nibble.Diagnostic
import Nibble.Text.Line
import Nibble.Text.Word
import Nibble.Word

/-! # Programs

A program is written as the decimal numbers of its cells. Reading takes every run of digits as a
cell, whatever separates them, and fills a short program up with zeros.
-/

namespace Nibble.Program

open Text

/-- The numbers in a text, unless one of them has too many digits. -/
def numbers? (text : String) : Option (List Nat) :=
  (runs Char.isDigit text.toList).mapM numeralValue?

def load (text : String) : Except Fault (List Int) :=
  match numbers? text with
  | none => .error (.defect .numeralTooLong)
  | some cells =>
    if memorySize < cells.length then .error (.cause .programTooBig)
    else match cells.find? (wordLimit < ·) with
      | some cell => .error (.cause (.programCellTooLarge cell))
      | none =>
        .ok (cells.map Int.ofNat ++ List.replicate (memorySize - cells.length) 0)

end Nibble.Program
