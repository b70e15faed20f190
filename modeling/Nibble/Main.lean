import Nibble.Shell.Assemble
import Nibble.Shell.Emulate

/-! # The program

The two commands on the files and streams of the system, under the current edition of the rules
for arguments. The first argument names the command.
-/

namespace Nibble.Shell

def refusalOf : IO.Error → Refusal
  | .noFileOrDirectory .. => .noSuchFile
  | .inappropriateType _ code details | .permissionDenied _ code details
  | .alreadyExists _ code details | .invalidArgument _ code details
  | .resourceExhausted _ code details | .noSuchThing _ code details
  | .interrupted _ code details | .otherError code details | .resourceBusy code details
  | .resourceVanished code details | .unsupportedOperation code details
  | .hardwareFault code details | .unsatisfiedConstraints code details
  | .illegalOperation code details | .protocolError code details | .timeExpired code details =>
    if code = 21 then .isADirectory else if code = 20 then .notADirectory
    else .system code.toNat details
  | .unexpectedEof => .system 5 "Input/output error"
  | .userError details => .system 0 details

def attempt {α : Type} (action : IO α) : IO (Except Refusal α) := do
  try return .ok (← action) catch e => return .error (refusalOf e)

/-- The bytes of a stream up to its end. -/
partial def readAll (stream : IO.FS.Stream) (bytes : ByteArray) : IO ByteArray := do
  let chunk ← stream.read 65536
  if chunk.isEmpty then return bytes else readAll stream (bytes ++ chunk)

def systemHost : Host IO where
  read name := attempt do return (← IO.FS.readBinFile name).toList
  write name content := attempt (IO.FS.writeFile name content)
  input := return (← readAll (← IO.getStdin) .empty).toList
  print text := do
    let stdout ← IO.getStdout
    stdout.putStr text
    stdout.flush
  complain text := do (← IO.getStderr).putStr text

def Exit.code : Exit → UInt32
  | .status code => code.toUInt32
  | .defect _ => 1
  | .endless => 1

/-- Runs the command that the first argument names. -/
def dispatch (args : List String) : IO UInt32 := do
  match args with
  | name :: rest =>
    if name = Assemble.command then return (← Assemble.run systemHost rest .current).code
    if name = Emulate.command then return (← Emulate.run systemHost rest .current).code
  | [] => pure ()
  (← IO.getStderr).putStrLn ("usage: nibble (" ++ Assemble.command ++ " | " ++
    Emulate.command ++ ") [arguments]")
  return 2

end Nibble.Shell

def main (args : List String) : IO UInt32 :=
  Nibble.Shell.dispatch args
