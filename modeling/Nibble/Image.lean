import Nibble.Address
import Nibble.Cell
import Nibble.SymbolTable
import Nibble.Word

/-! # Images

A memory that is filled from both ends, code upward from the first cell and data downward from the
last, together with the symbols that its cells refer to. Filling does not compare the two cursors;
that is the overlap check, and the range check is a third one. The size is that of the memory; an
image of a negative size has no cells.
-/

namespace Nibble

structure Image where
  size : Int
  memory : List Cell
  codeCursor : Int
  dataCursor : Int
  symbols : SymbolTable
  deriving DecidableEq, Repr

namespace Image

/-- An image of `size` zeros without symbols. -/
def blank (size : Int) : Image :=
  ⟨size, List.replicate size.toNat (.value 0), 0, size - 1, .empty⟩

def setCell (image : Image) (address : Int) (cell : Cell) : Except Fault Image :=
  match setEntry? image.memory address cell with
  | some memory => .ok { image with memory }
  | none => .error (.defect .noSuchCell)

/-- Puts a cell at the code cursor, unless that has passed the last cell. -/
def insertCode (image : Image) (cell : Cell) : Except Fault Image :=
  if image.size ≤ image.codeCursor then .error (.cause .codeFull)
  else do
    let image ← image.setCell image.codeCursor cell
    return { image with codeCursor := image.codeCursor + 1 }

/-- Puts a cell at the data cursor, unless that has passed the first cell. -/
def insertData (image : Image) (cell : Cell) : Except Fault Image :=
  if image.dataCursor < 0 then .error (.cause .dataFull)
  else do
    let image ← image.setCell image.dataCursor cell
    return { image with dataCursor := image.dataCursor - 1 }

/-- Puts cells at the code cursor up to the first that does not fit; what was put stays. -/
def insertCells (image : Image) : List Cell → Image × Except Fault Unit
  | [] => (image, .ok ())
  | cell :: rest =>
    match image.insertCode cell with
    | .ok image => image.insertCells rest
    | .error fault => (image, .error fault)

def addSymbol (image : Image) (name : String) (address : Int) : Image :=
  { image with symbols := image.symbols.insert name address }

/-- Fails if the last code cell is not below the first data cell. -/
def checkOverlap (image : Image) : Except Fault Unit :=
  if image.dataCursor + 1 ≤ image.codeCursor - 1 then .error (.cause .overlap) else .ok ()

/-- The first cell from some address on that holds a number over a limit. -/
def cellOver? (limit : Int) : Nat → List Cell → Option (Nat × Int)
  | _, [] => none
  | address, .value n :: rest =>
    if limit < n then some (address, n) else cellOver? limit (address + 1) rest
  | address, .symbol _ :: rest => cellOver? limit (address + 1) rest

/-- Fails if a cell, or else a symbol, is over a limit, and names the first one. -/
def checkRange (image : Image) (limit : Int) : Except Fault Unit :=
  match cellOver? limit 0 image.memory with
  | some (address, n) => .error (.cause (.cellTooLarge address n))
  | none =>
    match image.symbols.bindings.find? fun (_, address) => limit < address with
    | some (name, address) => .error (.cause (.symbolTooLarge name address))
    | none => .ok ()

def resolveCell (symbols : SymbolTable) : Cell → Except Reference Cell
  | .value n => .ok (.value n)
  | .symbol r =>
    match symbols.find? r.name with
    | some address => .ok (.value address)
    | none => .error r

/-- Replaces every reference by the address of its name, or yields the first one without. -/
def resolve (image : Image) : Except Reference Image := do
  return { image with memory := ← image.memory.mapM (resolveCell image.symbols) }

def text (image : Image) : String :=
  String.intercalate " " (image.memory.map Cell.text)

theorem symbols_setCell {image image' : Image} {address : Int} {cell : Cell}
    (h : image.setCell address cell = .ok image') : image'.symbols = image.symbols := by
  simp only [setCell] at h
  split at h
  · cases h; rfl
  · cases h

end Image

end Nibble
