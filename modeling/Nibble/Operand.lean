import Nibble.Cell
import Nibble.Opcode
import Nibble.Text.Word
import Nibble.Word

/-! # Operands

A token is a register (`%r0`, `%R1`), a number (`$7`), or a symbol (`loop`, and `$loop` unless the
word is a numeral).
-/

namespace Nibble

open Text

inductive Operand
  | register (r : Register)
  | number (n : Nat)
  | symbol (r : Reference)
  deriving DecidableEq, Repr

namespace Operand

def kind : Operand → OperandKind
  | register _ => .register
  | number _ => .number
  | symbol _ => .symbol

def toClass (op : Operand) : OperandClass :=
  op.kind.toClass

/-- What an operand puts into a cell: a register its index, a symbol the reference. -/
def cell : Operand → Cell
  | register r => .value r.index
  | number n => .value n
  | symbol r => .symbol r

def text (op : Operand) : String :=
  "Operand('" ++ op.kind.name ++ "', " ++ op.cell.text ++ ")"

/-- Whether two operands are the same register, number or symbol, wherever they stand. -/
def same : Operand → Operand → Bool
  | register r, register s => r == s
  | number m, number n => m == n
  | symbol r, symbol s => r.name == s.name
  | _, _ => false

def register? : List Char → Option Register
  | ['%', r, d] =>
    if r = 'r' || r = 'R' then
      if d = '0' then some .r0 else if d = '1' then some .r1 else none
    else none
  | _ => none

def numeral? : List Char → Option (List Char)
  | '$' :: digits => if isNumeral digits then some digits else none
  | _ => none

def name? : List Char → Option (List Char)
  | '$' :: name => if isWord name then some name else none
  | name => if isWord name then some name else none

/-- Reads a token; a symbol keeps the line that it stands on. -/
def parse (token : String) (line : Option Int) : Except Fault Operand :=
  match register? token.toList with
  | some r => .ok (register r)
  | none =>
    match numeral? token.toList with
    | some digits =>
      match numeralValue? digits with
      | none => .error (.defect .numeralTooLong)
      | some n =>
        if n ≤ wordLimit then .ok (number n) else .error (.cause (.operandTooLarge token))
    | none =>
      match name? token.toList with
      | some name => .ok (symbol ⟨String.ofList name, line⟩)
      | none => .error (.cause (.invalidOperand token))

def expect (op : Operand) (accepted : List OperandClass) (mnemonic : String) :
    Except Fault Operand :=
  if op.toClass ∈ accepted then .ok op
  else .error (.cause (.operandRefused mnemonic op.kind))

end Operand

end Nibble
