import Nibble.Image
import Nibble.Instruction
import Nibble.Listing
import Nibble.Statement

/-! # The assembler

Lines are assembled one by one into an image, a listing and the warnings; the symbols are resolved
after the last line. A line that fails may have left cells or a binding behind, so every operation
yields the assembler it leaves together with how it ended.
-/

namespace Nibble

open Text

structure Assembler where
  file : Option String
  image : Image
  rows : Array Row
  warnings : Array Warning
  deriving DecidableEq, Repr

namespace Assembler

def new (file : Option String) : Assembler :=
  ⟨file, .blank memorySize, #[], #[]⟩

/-- The assembler that an operation leaves, and how the operation ended. -/
abbrev Result (ε : Type) := Assembler × Except ε Unit

/-- Binds a name to an address, with a warning if it was bound before. -/
def bind (a : Assembler) (name : String) (address : Int) (line : Option Int) : Assembler :=
  let warnings := match a.image.symbols.find? name with
    | some previous => a.warnings.push ⟨name, previous, ⟨a.file, line⟩⟩
    | none => a.warnings
  { a with image := a.image.addSymbol name address, warnings }

/-- Checks the image that a statement has changed, and adds the row if it passes. -/
def record (a : Assembler) (row : Row) : Result Failure :=
  match (do a.image.checkOverlap; a.image.checkRange wordLimit) with
  | .ok () => ({ a with rows := a.rows.push row }, .ok ())
  | .error fault => (a, .error (fault.placed .unknown))

/-- Enters a statement whose line reads `source`. -/
def enter (a : Assembler) (source : String) (line : Option Int) : Statement → Result Failure
  | .data name value =>
    let address := a.image.dataCursor
    match a.image.insertData (.value value) with
    | .error fault => (a, .error (fault.placed .unknown))
    | .ok image =>
      ({ a with image }.bind name address line).record ⟨address, [.value value], line, source⟩
  | .label name =>
    let address := a.image.codeCursor
    (a.bind name address line).record ⟨address, [], line, source⟩
  | .instruction mnemonic operands =>
    let address := a.image.codeCursor
    match Instruction.encode mnemonic operands address line with
    | .error fault => (a, .error (fault.placed ⟨a.file, line⟩))
    | .ok cells =>
      match a.image.insertCells cells with
      | (image, .error fault) => ({ a with image }, .error (fault.placed .unknown))
      | (image, .ok ()) => { a with image }.record ⟨address, cells, line, source⟩

/-- Assembles one line. Reading and encoding know the place of a fault, the image does not. -/
def addLine (a : Assembler) (raw : List Char) (line : Option Int) : Result Failure :=
  match Statement.parse raw with
  | .error fault => (a, .error (fault.placed ⟨a.file, line⟩))
  | .ok none => (a, .ok ())
  | .ok (some statement) => a.enter (String.ofList (trim raw)) line statement

def resolve (a : Assembler) : Result Reference :=
  match a.image.resolve with
  | .ok image => ({ a with image }, .ok ())
  | .error r => (a, .error r)

/-- The failure with the place that is known where the image's failures are caught. -/
def locate (a : Assembler) (line : Int) : Failure → Failure
  | .diagnostic ⟨cause, place⟩ => .diagnostic ⟨cause, ⟨a.file, some (place.line.getD line)⟩⟩
  | .defect d => .defect d

/-- Assembles lines, numbered from `line` on, up to the first that fails. -/
def addLines (a : Assembler) (line : Int) : List (List Char) → Result Failure
  | [] => (a, .ok ())
  | raw :: rest =>
    match a.addLine (trimEnd (· = '\r') raw) (some line) with
    | (a, .ok ()) => a.addLines (line + 1) rest
    | (a, .error failure) => (a, .error (a.locate line failure))

/-- Assembles a text, whose lines are numbered from one, and resolves the symbols. -/
def assemble (a : Assembler) (text : String) : Result Failure :=
  match a.addLines 1 (lines text.toList) with
  | (a, .error failure) => (a, .error failure)
  | (a, .ok ()) =>
    match a.resolve with
    | (a, .ok ()) => (a, .ok ())
    | (a, .error r) => (a, .error (r.undefined a.file))

def listing (a : Assembler) (source : String) : String :=
  Listing.text a.rows.toList a.image.symbols source

end Assembler

end Nibble
