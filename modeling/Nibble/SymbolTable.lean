import Nibble.Keyed

/-! # Symbol tables

A table binds each name to one address. Names are kept in the order in which they were first
bound; binding a name again leaves it in its place.
-/

namespace Nibble

structure SymbolTable where
  bindings : List (String × Int)
  deriving DecidableEq, Repr

namespace SymbolTable

def empty : SymbolTable := ⟨[]⟩

def find? (t : SymbolTable) (name : String) : Option Int :=
  Keyed.find? t.bindings name

def insert (t : SymbolTable) (name : String) (address : Int) : SymbolTable :=
  ⟨Keyed.insert name address t.bindings⟩

/-- The table that results from binding names in order. -/
def ofList (bindings : List (String × Int)) : SymbolTable :=
  bindings.foldl (fun t (name, address) => t.insert name address) empty

/-- The bindings by name, in the order of the code points. -/
def sorted (t : SymbolTable) : List (String × Int) :=
  t.bindings.mergeSort fun a b => a.1 ≤ b.1

theorem find?_insert (t : SymbolTable) (name other : String) (address : Int) :
    (t.insert name address).find? other =
      if name = other then some address else t.find? other :=
  Keyed.find?_insert ..

end SymbolTable

end Nibble
