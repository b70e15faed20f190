import Nibble.Address
import Nibble.Diagnostic
import Nibble.Opcode
import Nibble.Word

/-! # The machine

Two registers, an instruction pointer and a memory that the program may change. A step executes
one instruction; it fails only where an address has no cell, and then leaves what was done before
that. A run steps until the machine halts, or for a bounded number of steps.
-/

namespace Nibble

/-- What the machine sends to the console. -/
inductive Signal
  | number (n : Int)
  | bell
  | newline
  deriving DecidableEq, Repr

inductive BellStyle
  | ring
  | spell
  deriving DecidableEq, Repr

def BellStyle.text : BellStyle → String
  | ring => "\x07"
  | spell => "DING "

def Signal.text (style : BellStyle) : Signal → String
  | number n => toString n ++ " "
  | bell => style.text
  | newline => "\n"

structure Machine where
  memory : List Int
  ip : Int
  r0 : Int
  r1 : Int
  steps : Int
  halted : Bool
  bellStyle : BellStyle
  output : Array Signal
  deriving DecidableEq, Repr

namespace Machine

def boot (memory : List Int) (bellStyle : BellStyle) : Machine :=
  ⟨memory, 0, 0, 0, 0, false, bellStyle, #[]⟩

def get (m : Machine) : Register → Int
  | .r0 => m.r0
  | .r1 => m.r1

def set (m : Machine) (r : Register) (value : Int) : Machine :=
  match r with
  | .r0 => { m with r0 := value }
  | .r1 => { m with r1 := value }

def emit (m : Machine) (signal : Signal) : Machine :=
  { m with output := m.output.push signal }

/-- The text on the console from the signal numbered `start` on. -/
def textFrom (m : Machine) (start : Nat) : String :=
  String.join ((m.output.toList.drop start).map (Signal.text m.bellStyle))

def text (m : Machine) : String :=
  m.textFrom 0

/-- Reads the cell at the pointer and moves past it. Beyond the sixteenth cell there are zeros. -/
def fetch (m : Machine) : Except Machine (Int × Machine) :=
  if m.ip < memorySize then
    match entry? m.memory m.ip with
    | some cell => .ok (cell, { m with ip := m.ip + 1 })
    | none => .error m
  else .ok (0, { m with ip := m.ip + 1 })

def execute (m : Machine) (op : Opcode) (operand : Int) : Except Machine Machine :=
  match op with
  | .halt => .ok ({ m with halted := true }.emit .newline)
  | .add => .ok { m with r0 := (m.r0 + m.r1) % wordModulus }
  | .sub => .ok { m with r0 := (m.r0 - m.r1) % wordModulus }
  | .inc r => .ok (m.set r ((m.get r + 1) % wordModulus))
  | .dec r => .ok (m.set r ((m.get r - 1) % wordModulus))
  | .bell => .ok (m.emit .bell)
  | .print => .ok (m.emit (.number operand))
  | .load r =>
    match entry? m.memory operand with
    | some cell => .ok (m.set r cell)
    | none => .error m
  | .store r =>
    match setEntry? m.memory operand (m.get r) with
    | some memory => .ok { m with memory }
    | none => .error m
  | .jump => .ok { m with ip := operand }
  | .jumpZero => .ok (if m.r0 = 0 then { m with ip := operand } else m)
  | .jumpNonzero => .ok (if m.r0 ≠ 0 then { m with ip := operand } else m)

/-- Fetches an operand if the cell in the place of an opcode takes one, and executes. A cell that
is no opcode has no further effect. -/
def perform (m : Machine) (cell : Int) : Except Machine Machine := do
  let (operand, m) ← if Opcode.takesOperand cell then m.fetch else pure (0, m)
  match Opcode.ofCode? cell with
  | some op => m.execute op operand
  | none => pure m

/-- Executes one instruction and counts it. Past the end of memory the machine halts. -/
def step (m : Machine) : Except Machine Machine := do
  let m ← if m.ip < memorySize then do
      let (cell, m) ← m.fetch
      m.perform cell
    else m.execute .halt 0
  return { m with steps := m.steps + 1 }

/-- How a run ends: the machine has halted, has steps left to do, or failed. -/
inductive Ending
  | halted
  | unfinished
  | failed
  deriving DecidableEq, Repr

def runFor : Nat → Machine → Ending × Machine
  | 0, m => (if m.halted then .halted else .unfinished, m)
  | n + 1, m =>
    if m.halted then (.halted, m)
    else match m.step with
      | .ok m => runFor n m
      | .error m => (.failed, m)

theorem runFor_of_halted {m : Machine} (h : m.halted) (n : Nat) : m.runFor n = (.halted, m) := by
  cases n <;> simp [runFor, h]

theorem runFor_zero {m : Machine} (h : ¬ m.halted) : m.runFor 0 = (.unfinished, m) := by
  simp [runFor, h]

theorem runFor_succ {m m' : Machine} (h : ¬ m.halted) (hs : m.step = .ok m') (n : Nat) :
    m.runFor (n + 1) = m'.runFor n := by
  simp [runFor, h, hs]

/--
More steps than a machine can do without halting, failing or coming back to a state that it was
in: the pointer has a place within the memory, and every cell and register holds a word or one of
the numbers that were there from the start.
-/
def horizon (m : Machine) : Nat :=
  let cells := m.memory.length
  (cells + memorySize + 1) * Nat.pow (cells + 2 + wordModulus) (cells + 2)

/-- Runs until the machine has halted, or until its step count has reached a limit. -/
def run (m : Machine) (limit : Option Int) : Ending × Machine :=
  match limit with
  | some limit => m.runFor (limit - m.steps).toNat
  | none => m.runFor m.horizon

end Machine

end Nibble
