import Nibble.Diagnostic
import Nibble.Text.Quoted

/-! # Cells

A cell of an image holds a number, or a reference to a symbol until the symbols are resolved.
-/

namespace Nibble

/-- A symbol and the line that refers to it. -/
structure Reference where
  name : String
  line : Option Int
  deriving DecidableEq, Repr

def Reference.text (r : Reference) : String :=
  "SymbolRef(" ++ Text.quoted r.name ++ ")"

def Reference.undefined (file : Option String) (r : Reference) : Failure :=
  .diagnostic ⟨.undefinedSymbol r.name, ⟨file, r.line⟩⟩

inductive Cell
  | value (n : Int)
  | symbol (r : Reference)
  deriving DecidableEq, Repr

def Cell.text : Cell → String
  | .value n => toString n
  | .symbol r => r.text

end Nibble
