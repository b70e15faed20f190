import Nibble.Proofs.Execution
import Nibble.Proofs.Script

/-! # The interpreter

A script is executed command by command on two registers and one value for each datum. Of the cells
only the addresses matter that are printed.
-/

namespace Nibble

namespace Script

def printed? (p : Script) : Argument → Option Int
  | .number n => some n
  | .symbol name => (p.find? name).map p.address

/-- The datum that a move reaches. -/
def datum? (p : Script) : Argument → Option Nat
  | .number _ => none
  | .symbol name =>
    match p.find? name with
    | some (.datum j) => some j
    | _ => none

/-- The command that a jump goes to. -/
def target? (p : Script) : Argument → Option Nat
  | .number _ => none
  | .symbol name =>
    match p.find? name with
    | some (.command k) => some k
    | _ => none

end Script

/-- The next command, the registers, the values of the data and the text on the console. -/
structure Config where
  next : Nat
  r0 : Int
  r1 : Int
  data : List Int
  text : String
  halted : Bool
  deriving DecidableEq, Repr

namespace Config

def start (p : Script) : Config :=
  ⟨0, 0, 0, p.data.map Nat.cast, "", false⟩

def get (s : Config) : Register → Int
  | .r0 => s.r0
  | .r1 => s.r1

def set (s : Config) (r : Register) (value : Int) : Config :=
  match r with
  | .r0 => { s with r0 := value }
  | .r1 => { s with r1 := value }

def write (s : Config) (text : String) : Config :=
  { s with text := s.text ++ text }

def halt (s : Config) : Config :=
  { s.write "\n" with halted := true }

/-- Executes a command, unless its operand names nothing that it could be executed with. -/
def execute (p : Script) (style : BellStyle) (s : Config) (c : Command Argument) :
    Option Config :=
  let next := { s with next := s.next + 1 }
  match c with
  | .halt => some s.halt
  | .add => some (next.set .r0 ((s.r0 + s.r1) % 16))
  | .sub => some (next.set .r0 ((s.r0 - s.r1) % 16))
  | .inc r => some (next.set r ((s.get r + 1) % 16))
  | .dec r => some (next.set r ((s.get r - 1) % 16))
  | .bell => some (next.write style.text)
  | .print x => do
    let n ← p.printed? x
    return next.write (toString n ++ " ")
  | .printRegister r => some (next.write (toString (s.get r) ++ " "))
  | .load x r => do
    let j ← p.datum? x
    let n ← s.data[j]?
    return next.set r n
  | .store r x => do
    let j ← p.datum? x
    return { next with data := s.data.set j (s.get r) }
  | .jump condition x => do
    let k ← p.target? x
    return if condition.Holds s.r0 then { s with next := k } else next

/-- One step. The interpreter halts after the last command, and then stays as it is. -/
def step (p : Script) (style : BellStyle) (s : Config) : Option Config :=
  if s.halted then some s
  else match p.commands[s.next]? with
    | some c => s.execute p style c
    | none => some s.halt

/-- The steps of the machine in one step of the interpreter. -/
def duration (p : Script) (s : Config) : Nat :=
  if s.halted then 0
  else match p.commands[s.next]? with
    | some c => c.stepCount
    | none => 1

def stepTimes (p : Script) (style : BellStyle) : Nat → Config → Option Config
  | 0, s => some s
  | n + 1, s => s.step p style >>= stepTimes p style n

def elapsed (p : Script) (style : BellStyle) : Nat → Config → Nat
  | 0, _ => 0
  | n + 1, s => s.duration p + ((s.step p style).elim 0 (elapsed p style n))

end Config

end Nibble
