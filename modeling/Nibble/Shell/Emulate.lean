import Nibble.Machine
import Nibble.Program
import Nibble.Shell.Host
import Nibble.Shell.Option
import Nibble.Text.Utf8

/-! # The machine's command

Reads a program, loads it, and runs it, at most for a given number of steps.
-/

namespace Nibble.Shell.Emulate

open Text

/--
How many steps a run may take: any number, a given one, or one that was left out, as only the former
edition of the rules for arguments allows.
-/
inductive Limit
  | unlimited
  | steps (n : Int)
  | missing
  deriving DecidableEq, Repr

structure Options where
  program : String
  bellStyle : BellStyle
  limit : Limit
  deriving DecidableEq, Repr

def command : String := "fourem"

def usage : String := "usage: fourem [-h] [--fake-bell] [--max-steps N] [program]"

def defaults : Options := ⟨"-", .ring, .unlimited⟩

def helpSwitch : Switch := ⟨["-h", "--help"], false⟩

def bellSwitch : Switch := ⟨["--fake-bell"], false⟩

def limitSwitch : Switch := ⟨["--max-steps"], true⟩

def switches : List Switch := [helpSwitch, bellSwitch, limitSwitch]

variable {m : Type → Type} [Monad m]

def runMachine (host : Host m) (limit : Option Int) (start : Machine) : m Exit := do
  let (ending, machine) := start.run limit
  host.print machine.text
  match ending, limit with
  | .halted, _ => return .status 0
  | .unfinished, some n => host.failWith ((Fault.cause (.stepLimit n)).placed .unknown)
  | .unfinished, none => return .endless
  | .failed, _ => return .defect .noSuchCell

/--
Runs the command with its options read. The standard input is taken to be decoded as strictly as a
file: a system that lets undecodable bytes of its input through does not end here with a defect.
-/
def start (host : Host m) (options : Options) : m Exit := do
  match ← host.readSource options.program with
  | .error refusal => host.failFor options.program refusal
  | .ok bytes =>
    match Utf8.decode bytes with
    | .error _ => return .defect .undecodable
    | .ok chars =>
      match Program.load (String.ofList chars) with
      | .error fault => host.failWith (fault.placed ⟨sourceName options.program, none⟩)
      | .ok memory =>
        let machine := Machine.boot memory options.bellStyle
        match options.limit with
        | .unlimited => runMachine host none machine
        | .steps n => runMachine host (some n) machine
        | .missing => return .defect .valueMissing

/-- Lets the events take effect one after the other; extra arguments are refused at the end. -/
def follow (host : Host m) (options : Options) (extras : List String) : List Event → m Exit
  | [] =>
    if extras.isEmpty then start host options
    else host.failUsage usage command
      ("unrecognized arguments: " ++ String.intercalate " " extras)
  | .flag s :: rest =>
    if s = bellSwitch then follow host { options with bellStyle := .spell } extras rest
    else do
      host.print (usage ++ "\n")
      return .status 0
  | .value _ none :: rest => follow host { options with limit := .missing } extras rest
  | .value s (some text) :: rest =>
    match integer? text with
    | some n => follow host { options with limit := .steps n } extras rest
    | none => host.failUsage usage command (s.refusal ("invalid int value: " ++ quoted text))
  | .operand text :: rest => follow host { options with program := text } extras rest
  | .extra text :: rest => follow host options (extras ++ [text]) rest
  | .refusal message :: _ => host.failUsage usage command message

/-- The command, with its arguments read by the rules of an edition. -/
def run (host : Host m) (args : List String) (edition : Edition := .former) : m Exit :=
  follow host defaults [] (events edition switches args)

end Nibble.Shell.Emulate
