import Nibble.Operand

/-! # Instructions

The catalog gives each mnemonic its format and the opcode that the format starts from. A format
fixes the operands and the cells that an instruction takes.
-/

namespace Nibble

/--
The formats: an opcode alone, an opcode chosen by a register, a print, a move between a register
and a cell, and a jump.
-/
inductive Format
  | plain
  | register
  | print
  | move
  | jump
  deriving DecidableEq, Repr

/-- An instruction as it is encoded. Without an opcode to start from there may be none. -/
structure Encoding where
  opcode : Option Int
  rest : List Cell
  deriving DecidableEq, Repr

def Encoding.cells (e : Encoding) : List Cell :=
  (e.opcode.map Cell.value).toList ++ e.rest

namespace Format

def name : Format → String
  | plain => "none"
  | register => "reg"
  | print => "prnt"
  | move => "mov"
  | jump => "jump"

/-- The classes that are accepted for each operand. -/
def shape : Format → List (List OperandClass)
  | plain => []
  | register => [[.register]]
  | print => [[.register, .number]]
  | move => [[.register, .number], [.register, .number]]
  | jump => [[.number]]

/--
An instruction at an address, for operands of which only the number and the classes in a move are
checked. A register is printed by storing it into the operand of the print that follows.
-/
def encode : Format → Option Int → List Operand → Int → Except Fault Encoding
  | plain, base, _, _ => .ok ⟨base, []⟩
  | register, base, op :: _, _ =>
    match base, op.cell with
    | some base, .value n => .ok ⟨some (base + n), []⟩
    | _, _ => .error (.defect .noOpcode)
  | print, _, .register r :: _, address =>
    .ok ⟨some (Opcode.store r).code,
      [.value (address + 3), .value Opcode.print.code, .value 0]⟩
  | print, _, op :: _, _ => .ok ⟨some Opcode.print.code, [op.cell]⟩
  | move, _, [.register _, .register _], _ => .error (.cause .operandsAlike)
  | move, _, [.register r, place], _ => .ok ⟨some (Opcode.store r).code, [place.cell]⟩
  | move, _, [place, .register r], _ => .ok ⟨some (Opcode.load r).code, [place.cell]⟩
  | move, _, [_, _], _ => .error (.cause .operandsAlike)
  | move, _, _, _ => .error (.defect .operandsNotPaired)
  | jump, base, op :: _, _ => .ok ⟨base, [op.cell]⟩
  | register, _, [], _ => .error (.defect .operandMissing)
  | print, _, [], _ => .error (.defect .operandMissing)
  | jump, _, [], _ => .error (.defect .operandMissing)

end Format

/-- An entry of the catalog. A move has no opcode of its own to start from. -/
structure Instruction where
  mnemonic : String
  base : Option Nat
  format : Format
  deriving DecidableEq, Repr

namespace Instruction

def catalog : List Instruction :=
  [⟨"halt", some Opcode.halt.code, .plain⟩,
   ⟨"add", some Opcode.add.code, .plain⟩,
   ⟨"sub", some Opcode.sub.code, .plain⟩,
   ⟨"inc", some (Opcode.inc .r0).code, .register⟩,
   ⟨"dec", some (Opcode.dec .r0).code, .register⟩,
   ⟨"bell", some Opcode.bell.code, .plain⟩,
   ⟨"prnt", some Opcode.print.code, .print⟩,
   ⟨"mov", none, .move⟩,
   ⟨"jmp", some Opcode.jump.code, .jump⟩,
   ⟨"jz", some Opcode.jumpZero.code, .jump⟩,
   ⟨"jnz", some Opcode.jumpNonzero.code, .jump⟩]

def find? (mnemonic : String) : Option Instruction :=
  catalog.find? (·.mnemonic = mnemonic)

/-- Reads the tokens and checks each against the classes accepted in its place. -/
def operands (mnemonic : String) (line : Option Int) :
    List String → List (List OperandClass) → Except Fault (List Operand)
  | token :: tokens, accepted :: shape => do
    let op ← Operand.parse token line
    let op ← op.expect accepted mnemonic
    return op :: (← operands mnemonic line tokens shape)
  | _, _ => return []

/-- The cells of an instruction that stands at an address. -/
def encode (mnemonic : String) (tokens : List String) (address : Int) (line : Option Int) :
    Except Fault (List Cell) :=
  match find? mnemonic with
  | none => .error (.cause (.unknownInstruction mnemonic))
  | some entry =>
    let shape := entry.format.shape
    if tokens.length ≠ shape.length then
      .error (.cause (.operandCount mnemonic shape.length tokens.length))
    else do
      let ops ← operands mnemonic line tokens shape
      let encoding ← entry.format.encode (entry.base.map Int.ofNat) ops address
      return encoding.cells

end Instruction

end Nibble
