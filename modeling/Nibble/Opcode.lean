/-! # Registers and opcodes

The sixteen opcodes and their codes. The codes above that of the bell take the following cell as
their operand.
-/

namespace Nibble

inductive Register
  | r0
  | r1
  deriving DecidableEq, Repr

def Register.index : Register → Nat
  | .r0 => 0
  | .r1 => 1

inductive Opcode
  | halt
  | add
  | sub
  | inc (r : Register)
  | dec (r : Register)
  | bell
  | print
  | load (r : Register)
  | store (r : Register)
  | jump
  | jumpZero
  | jumpNonzero
  deriving DecidableEq, Repr

namespace Opcode

def code : Opcode → Nat
  | halt => 0
  | add => 1
  | sub => 2
  | inc r => 3 + r.index
  | dec r => 5 + r.index
  | bell => 7
  | print => 8
  | load r => 9 + r.index
  | store r => 11 + r.index
  | jump => 13
  | jumpZero => 14
  | jumpNonzero => 15

def ofCode? : Int → Option Opcode
  | 0 => some halt
  | 1 => some add
  | 2 => some sub
  | 3 => some (inc .r0)
  | 4 => some (inc .r1)
  | 5 => some (dec .r0)
  | 6 => some (dec .r1)
  | 7 => some bell
  | 8 => some print
  | 9 => some (load .r0)
  | 10 => some (load .r1)
  | 11 => some (store .r0)
  | 12 => some (store .r1)
  | 13 => some jump
  | 14 => some jumpZero
  | 15 => some jumpNonzero
  | _ => none

theorem ofCode?_code (op : Opcode) : ofCode? op.code = some op := by
  cases op with
  | inc r | dec r | load r | store r => cases r <;> rfl
  | _ => rfl

theorem eq_code_of_ofCode? {cell : Int} {op : Opcode} (h : ofCode? cell = some op) :
    cell = op.code := by
  unfold ofCode? at h
  split at h <;> cases h <;> rfl

/-- Whether a cell in the place of an opcode is followed by an operand. -/
def takesOperand (cell : Int) : Bool :=
  (bell.code : Int) < cell

end Opcode

end Nibble
