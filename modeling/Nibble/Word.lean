/-! # Words and memory

The machine has sixteen cells, and a cell holds a word of four bits.
-/

namespace Nibble

/-- The number of cells. -/
def memorySize : Nat := 16

/-- The greatest word. -/
def wordLimit : Nat := 15

/-- Arithmetic in the registers is modulo this number. -/
def wordModulus : Nat := wordLimit + 1

/-- Whether a number is a word of the machine. -/
def IsNibble (n : Int) : Prop :=
  0 ≤ n ∧ n ≤ wordLimit

instance (n : Int) : Decidable (IsNibble n) :=
  inferInstanceAs (Decidable (0 ≤ n ∧ n ≤ wordLimit))

theorem isNibble_natCast_iff {k : Nat} : IsNibble k ↔ k < memorySize := by
  unfold IsNibble wordLimit memorySize
  omega

theorem IsNibble.exists_nat {n : Int} (h : IsNibble n) : ∃ k : Nat, k < memorySize ∧ n = k := by
  obtain ⟨k, rfl⟩ := Int.eq_ofNat_of_zero_le h.1
  exact ⟨k, isNibble_natCast_iff.mp h, rfl⟩

end Nibble
