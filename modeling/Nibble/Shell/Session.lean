import Nibble.Shell.Folder
import Nibble.Text.Utf8

/-! # Sessions

A command that runs in a model of a folder, with its input and outputs as data.
-/

namespace Nibble.Shell

/-- A folder in which a command runs, with its input and its two outputs. -/
structure Session where
  folder : Folder
  input : List UInt8
  output : String
  complaints : String

def Session.host : Host (StateM Session) where
  read name := return (← get).folder.read name
  write name content := do
    let session ← get
    match session.folder.write name (Text.Utf8.encode content) with
    | .ok folder =>
      set { session with folder }
      return .ok ()
    | .error refusal => return .error refusal
  input := return (← get).input
  print text := modify fun session => { session with output := session.output ++ text }
  complain text :=
    modify fun session => { session with complaints := session.complaints ++ text }

end Nibble.Shell
