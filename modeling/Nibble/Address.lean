/-! # Addresses

An address counts the entries of a list from zero. A negative one counts from the end, so that
`-1` is the last entry; an address beyond either end has no entry.
-/

namespace Nibble

/-- The position that an address names in a list of `length` entries. -/
def position? (length : Nat) (address : Int) : Option Nat :=
  if 0 ≤ address then
    if address < length then some address.toNat else none
  else if 0 ≤ address + length then some (address + length).toNat else none

def entry? {α : Type} (entries : List α) (address : Int) : Option α :=
  (position? entries.length address).bind (entries[·]?)

def setEntry? {α : Type} (entries : List α) (address : Int) (value : α) : Option (List α) :=
  (position? entries.length address).map (entries.set · value)

theorem position?_natCast {length n : Nat} (h : n < length) : position? length n = some n := by
  simp [position?, h]

end Nibble
