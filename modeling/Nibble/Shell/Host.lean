import Nibble.Diagnostic
import Nibble.Text.Quoted

/-! # Hosts

What a command needs from the system that it runs on. Commands are written for any host, so that
they run both on files and on a model of a folder.
-/

namespace Nibble.Shell

inductive Refusal
  /-- The system's number and words for it. -/
  | system (code : Nat) (reason : String)
  /-- The name can be no file's name. -/
  | invalidName
  deriving DecidableEq, Repr

namespace Refusal

def noSuchFile : Refusal := system 2 "No such file or directory"

def notADirectory : Refusal := system 20 "Not a directory"

def isADirectory : Refusal := system 21 "Is a directory"

def nameTooLong : Refusal := system 36 "File name too long"

end Refusal

structure Host (m : Type → Type) where
  read : String → m (Except Refusal (List UInt8))
  write : String → String → m (Except Refusal Unit)
  input : m (List UInt8)
  print : String → m Unit
  complain : String → m Unit

/-- How a command ends: with a status, with a defect, or not at all. -/
inductive Exit
  | status (code : Nat)
  | defect (d : Defect)
  | endless
  deriving DecidableEq, Repr

variable {m : Type → Type} [Monad m]

def Host.fail (host : Host m) (message : String) : m Exit := do
  host.complain (message ++ "\n")
  return .status 1

def Host.failWith (host : Host m) : Failure → m Exit
  | .diagnostic d => host.fail d.text
  | .defect d => return .defect d

def Host.failFor (host : Host m) (name : String) : Refusal → m Exit
  | .system code reason =>
    host.fail ("Error: [Errno " ++ toString code ++ "] " ++ reason ++ ": " ++ Text.quoted name)
  | .invalidName => return .defect .invalidName

def Host.failUsage (host : Host m) (usage command message : String) : m Exit := do
  host.complain (usage ++ "\n" ++ command ++ ": error: " ++ message ++ "\n")
  return .status 2

/-- What an argument that names a source stands for: a hyphen is the standard input. -/
def Host.readSource (host : Host m) (argument : String) : m (Except Refusal (List UInt8)) := do
  if argument = "-" then return .ok (← host.input) else host.read argument

def sourceName (argument : String) : String :=
  if argument = "-" then "<stdin>" else argument

end Nibble.Shell
