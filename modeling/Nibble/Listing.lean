import Nibble.Cell
import Nibble.SymbolTable
import Nibble.Text.Column

/-! # Listings

A listing shows the symbols by name, and then for each statement the address, the cells and the
source line. References are shown by their address if they have one.
-/

namespace Nibble

/-- A statement that was assembled, with the cells as they were before the symbols were known. -/
structure Row where
  address : Int
  cells : List Cell
  line : Option Int
  source : String
  deriving DecidableEq, Repr

namespace Listing

open Text

def cellText (symbols : SymbolTable) : Cell → String
  | .value n => toString n
  | .symbol r =>
    match symbols.find? r.name with
    | some address => toString address
    | none => r.name

def cellsText (symbols : SymbolTable) (cells : List Cell) : String :=
  String.intercalate " " (cells.map (cellText symbols))

def rowText (symbols : SymbolTable) (row : Row) : String :=
  "  " ++ padLeft 4 (toString row.address) ++ "  " ++
    padRight 12 (cellsText symbols row.cells) ++ "  " ++ row.source

def symbolText (binding : String × Int) : String :=
  "#   " ++ padRight 24 binding.1 ++ " = " ++ toString binding.2

def symbolLines (symbols : SymbolTable) : List String :=
  if symbols.bindings.isEmpty then []
  else "# Symbols:" :: symbols.sorted.map symbolText ++ [""]

def lines (rows : List Row) (symbols : SymbolTable) (source : String) : List String :=
  ["# 4-bit assembler listing", "# Source: " ++ source, ""] ++ symbolLines symbols ++
    [padLeft 6 "Addr" ++ "  " ++ padRight 12 "Cells" ++ "  Source",
      String.ofList (List.replicate 72 '-')] ++ rows.map (rowText symbols)

/-- A listing of some source; every line ends with a line feed. -/
def text (rows : List Row) (symbols : SymbolTable) (source : String) : String :=
  String.intercalate "\n" (lines rows symbols source) ++ "\n"

end Listing

end Nibble
