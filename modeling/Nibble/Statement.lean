import Nibble.Diagnostic
import Nibble.Text.Blank
import Nibble.Text.Line
import Nibble.Text.Lowercase
import Nibble.Text.Word
import Nibble.Word

/-! # Statements

A line holds at most one statement: a data directive, a label, or an instruction whose tokens are
set apart by white space and commas. A comment reaches from a number sign to the end of the line.
-/

namespace Nibble

open Text

/-- The tokens of an instruction are read when it is encoded; its mnemonic is in lower case. -/
inductive Statement
  | data (name : String) (value : Nat)
  | label (name : String)
  | instruction (mnemonic : String) (operands : List String)
  deriving DecidableEq, Repr

namespace Statement

def stripComment (line : List Char) : List Char :=
  line.takeWhile (· ≠ '#')

/-- The part of a line that is read: no comment, and no white space around. -/
def body (line : List Char) : List Char :=
  trim (stripComment line)

def isSeparator (c : Char) : Bool :=
  isBlank c || c = ','

/-- The name and the digits of a data directive, `.data name, digits`. -/
def dataFields? : List Char → Option (List Char × List Char)
  | '.' :: 'd' :: 'a' :: 't' :: 'a' :: rest =>
    let named := rest.dropWhile isAsciiBlank
    let name := named.takeWhile isWordChar
    match (named.dropWhile isWordChar).dropWhile isAsciiBlank with
    | ',' :: last =>
      let digits := last.dropWhile isAsciiBlank
      if rest.head?.any isAsciiBlank && isWord name && isNumeral digits then some (name, digits)
      else none
    | _ => none
  | _ => none

def parseData (s : List Char) : Except Fault Statement :=
  match dataFields? s with
  | none => .error (.cause .invalidDirective)
  | some (name, digits) =>
    match numeralValue? digits with
    | none => .error (.defect .numeralTooLong)
    | some value =>
      if value ≤ wordLimit then .ok (data (String.ofList name) value)
      else .error (.cause (.dataTooLarge value))

/-- The name of a label, which is a word before a colon. -/
def labelName? (s : List Char) : Option (List Char) :=
  if s.getLast? = some ':' && isWord s.dropLast then some s.dropLast else none

def parseInstruction (s : List Char) : Except Fault Statement :=
  match runs (fun c => !isSeparator c) s with
  | [] => .error (.defect .noMnemonic)
  | mnemonic :: operands =>
    .ok (instruction (String.ofList (lowercase mnemonic)) (operands.map String.ofList))

/-- Reads a line; a line without a body holds no statement. -/
def parse (line : List Char) : Except Fault (Option Statement) :=
  match body line with
  | [] => .ok none
  | '.' :: rest => some <$> parseData ('.' :: rest)
  | s =>
    match labelName? s with
    | some name => .ok (some (label (String.ofList name)))
    | none => some <$> parseInstruction s

end Statement

end Nibble
