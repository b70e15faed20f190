import Mathlib.Data.List.Induction
import Nibble.Text.Word
import Nibble.Word

/-! # Numerals

The numerals of a number are its decimal digits after any number of zeros, and every row of digits
is a numeral of some number.
-/

namespace Nibble.Text

/-- A number in decimal digits with zeros in front. -/
def numeral (zeros value : Nat) : List Char :=
  List.replicate zeros '0' ++ Nat.toDigits 10 value

theorem toList_toString_ofNat (n : Nat) : (toString (Int.ofNat n)).toList = Nat.toDigits 10 n := by
  change (toString n).toList = _
  rw [Nat.toString_eq_ofList_toDigits, String.toList_ofList]

theorem numeral_ne_nil (zeros value : Nat) : numeral zeros value ≠ [] := by
  simp [numeral]

theorem isDigit_of_mem_numeral {zeros value : Nat} {c : Char} (h : c ∈ numeral zeros value) :
    c.isDigit := by
  rcases List.mem_append.mp h with h | h
  · obtain rfl := List.eq_of_mem_replicate h
    rfl
  · exact Nat.isDigit_of_mem_toDigits (by decide) (Nat.le_refl 10) h

theorem length_toDigits_le_two {n : Nat} (h : n ≤ wordLimit) : (Nat.toDigits 10 n).length ≤ 2 :=
  (Nat.length_toDigits_le_iff (by decide) (by decide)).mpr (Nat.lt_of_le_of_lt h (by decide))

theorem decimal_map_digitValue (s : List Char) :
    decimal (s.map digitValue) = Nat.ofDigitChars 10 s 0 := by
  rw [decimal, List.foldl_map, Nat.ofDigitChars_eq_foldl]
  rfl

/-- Reading a numeral yields its number, whatever the zeros. -/
theorem numeralValue?_numeral {zeros value : Nat} (h : (numeral zeros value).length ≤ maxDigits) :
    numeralValue? (numeral zeros value) = some value := by
  rw [numeralValue?, if_pos h, decimal_map_digitValue, numeral, Nat.ofDigitChars_append,
    Nat.ofDigitChars_replicate_zero, Nat.mul_zero, Nat.ofDigitChars_ten_toDigits]

theorem toDigits_digitValue {c : Char} (h : c.isDigit) :
    digitValue c < 10 ∧ Nat.toDigits 10 (digitValue c) = [c] := by
  obtain ⟨hlo, hhi⟩ : 48 ≤ c.toNat ∧ c.toNat ≤ 57 := Char.isDigit_iff_toNat.mp h
  have hlt : digitValue c < 10 := by
    change c.toNat - 48 < 10
    omega
  have hc : (digitValue c).digitChar = c := by
    apply Char.toNat_inj.mp
    rw [Nat.toNat_digitChar_of_lt_ten hlt]
    change 48 + (c.toNat - 48) = c.toNat
    omega
  exact ⟨hlt, by rw [Nat.toDigits_of_lt_base hlt, hc]⟩

theorem exists_numeral {s : List Char} (hne : s ≠ []) (hs : ∀ c ∈ s, c.isDigit) :
    ∃ zeros value, s = numeral zeros value := by
  induction s using List.reverseRecOn with
  | nil => exact absurd rfl hne
  | append_singleton s c ih =>
    obtain ⟨hlt, hc⟩ := toDigits_digitValue (hs c (List.mem_append_right _ (.head _)))
    rcases eq_or_ne s [] with rfl | hs'
    · exact ⟨0, digitValue c, hc.symm⟩
    · obtain ⟨zeros, value, rfl⟩ := ih hs' fun d hd => hs d (List.mem_append_left _ hd)
      -- the digits of zero are one more zero in front
      rcases Nat.eq_zero_or_pos value with rfl | hpos
      · refine ⟨zeros + 1, digitValue c, ?_⟩
        rw [numeral, numeral, hc, List.replicate_succ']
        rfl
      · refine ⟨zeros, 10 * value + digitValue c, ?_⟩
        rw [numeral, numeral, List.append_assoc, ← hc,
          Nat.toDigits_append_toDigits (by decide) hpos hlt]

end Nibble.Text
