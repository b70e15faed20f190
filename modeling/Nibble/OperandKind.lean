/-! # Kinds and classes of operands

A symbol stands for an address, so it belongs to the class of the numbers.
-/

namespace Nibble

inductive OperandKind
  | register
  | number
  | symbol
  deriving DecidableEq, Repr

inductive OperandClass
  | register
  | number
  deriving DecidableEq, Repr

def OperandKind.name : OperandKind → String
  | register => "register"
  | number => "number"
  | symbol => "symbol"

def OperandClass.name : OperandClass → String
  | register => "register"
  | number => "number"

def OperandKind.toClass : OperandKind → OperandClass
  | register => .register
  | number => .number
  | symbol => .number

end Nibble
