import Nibble.OperandKind

/-! # Diagnostics

What the assembler and the machine find wrong with their input, and how it is reported. A cause
knows its kind and its message; a place puts the source and the line in front of it. A few inputs
are not diagnosed at all, and the defects name these.
-/

namespace Nibble

/-- A source and a line of it, as far as they are known. -/
structure Place where
  file : Option String
  line : Option Int
  deriving DecidableEq, Repr

def Place.unknown : Place := ⟨none, none⟩

/-- The source, then the line after a colon. -/
def Place.text (p : Place) : String :=
  p.file.getD "" ++ match p.line with
    | some n => ":" ++ toString n
    | none => ""

/-- A message under a heading, with the place in parentheses if anything is known of it. -/
def headline (heading : String) (p : Place) (message : String) : String :=
  if p.text.isEmpty then heading ++ ": " ++ message
  else heading ++ " (" ++ p.text ++ "): " ++ message

inductive Kind
  | general
  | form
  | operandType
  | operandCount
  | overflow
  | undefinedSymbol
  deriving DecidableEq, Repr

def Kind.heading : Kind → String
  | general => "Error"
  | form => "SyntaxError"
  | operandType => "OperandTypeError"
  | operandCount => "OperandCountError"
  | overflow => "OverflowError"
  | undefinedSymbol => "UndefinedSymbolError"

/-- What can be wrong. The last three are found by the machine, the others by the assembler. -/
inductive Cause
  | invalidOperand (token : String)
  | operandTooLarge (token : String)
  | operandRefused (mnemonic : String) (kind : OperandKind)
  | operandsAlike
  | operandCount (mnemonic : String) (expected given : Nat)
  | unknownInstruction (mnemonic : String)
  | invalidDirective
  | dataTooLarge (value : Nat)
  | codeFull
  | dataFull
  | overlap
  | cellTooLarge (address : Nat) (value : Int)
  | symbolTooLarge (name : String) (value : Int)
  | undefinedSymbol (name : String)
  | programTooBig
  | programCellTooLarge (value : Nat)
  | stepLimit (limit : Int)
  deriving DecidableEq, Repr

namespace Cause

def kind : Cause → Kind
  | invalidOperand _ => .form
  | operandTooLarge _ => .overflow
  | operandRefused _ _ => .operandType
  | operandsAlike => .operandType
  | operandCount _ _ _ => .operandCount
  | unknownInstruction _ => .form
  | invalidDirective => .form
  | dataTooLarge _ => .overflow
  | codeFull => .overflow
  | dataFull => .overflow
  | overlap => .overflow
  | cellTooLarge _ _ => .overflow
  | symbolTooLarge _ _ => .overflow
  | undefinedSymbol _ => .undefinedSymbol
  | programTooBig => .general
  | programCellTooLarge _ => .general
  | stepLimit _ => .general

def message : Cause → String
  | invalidOperand token => "invalid operand '" ++ token ++ "'"
  | operandTooLarge token => "operand '" ++ token ++ "' is too large for a 4-bit machine"
  | operandRefused mnemonic kind => "'" ++ mnemonic ++ "' does not accept " ++ kind.name ++ "s"
  | operandsAlike => "operands cannot both be the same class"
  | operandCount mnemonic expected given =>
    "'" ++ mnemonic ++ "' takes " ++ toString expected ++ " operand(s), got " ++ toString given
  | unknownInstruction mnemonic => "unknown instruction '" ++ mnemonic ++ "'"
  | invalidDirective => "invalid assembler directive"
  | dataTooLarge value =>
    "data value " ++ toString value ++ " is too large for a 4-bit machine"
  | codeFull => "program is too large for memory"
  | dataFull => "data is too large for memory"
  | overlap => "data and code sections are overlapping"
  | cellTooLarge address value =>
    "cell " ++ toString address ++ " holds " ++ toString value ++
      ", too large for a 4-bit machine"
  | symbolTooLarge name value =>
    "symbol '" ++ name ++ "' resolves to " ++ toString value ++
      ", too large for a 4-bit machine"
  | undefinedSymbol name => "undefined symbol '" ++ name ++ "'"
  | programTooBig => "program too big"
  | programCellTooLarge value =>
    "program contains value " ++ toString value ++ ", too large for a 4-bit machine"
  | stepLimit limit => "step limit " ++ toString limit ++ " exceeded"

end Cause

structure Diagnostic where
  cause : Cause
  place : Place
  deriving DecidableEq, Repr

def Diagnostic.text (d : Diagnostic) : String :=
  headline d.cause.kind.heading d.place d.cause.message

/-- Inputs that end the work without a diagnosis. -/
inductive Defect
  /-- A line of separators only has no mnemonic. -/
  | noMnemonic
  /-- A numeral has more digits than are read. -/
  | numeralTooLong
  /-- A memory access lies beyond both ends. -/
  | noSuchCell
  /-- An encoder lacks the operand that it needs. -/
  | operandMissing
  /-- A move was given some other number of operands than two. -/
  | operandsNotPaired
  /-- An opcode cannot be computed from a symbol, nor without one to start from. -/
  | noOpcode
  /-- The bytes of a program are no text. -/
  | undecodable
  /-- A file name holds the character zero. -/
  | invalidName
  /-- An option lacks the value that it needs. -/
  | valueMissing
  deriving DecidableEq, Repr

/-- What is wrong, before a place is known for it. -/
inductive Fault
  | cause (c : Cause)
  | defect (d : Defect)
  deriving DecidableEq, Repr

/-- What ends the work: a diagnostic or a defect. -/
inductive Failure
  | diagnostic (d : Diagnostic)
  | defect (d : Defect)
  deriving DecidableEq, Repr

def Fault.placed (p : Place) : Fault → Failure
  | cause c => .diagnostic ⟨c, p⟩
  | defect d => .defect d

/-- A new binding of a name that was bound before. -/
structure Warning where
  name : String
  previous : Int
  place : Place
  deriving DecidableEq, Repr

def Warning.message (w : Warning) : String :=
  "symbol '" ++ w.name ++ "' redefined (was " ++ toString w.previous ++ ")"

def Warning.text (w : Warning) : String :=
  headline "Warning" w.place w.message

end Nibble
