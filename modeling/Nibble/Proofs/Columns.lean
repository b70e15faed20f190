import Nibble.Listing
import Nibble.Proofs.Grammar

/-! # Columns

Words that hold no space can be read back from a column in which they are set, and from a row of
them with a space between two. The numbers of the machine are such words.
-/

namespace Nibble

namespace Text

def isInk (c : Char) : Bool :=
  c ≠ ' '

/-- Whether a text is one run of characters that are seen. -/
def IsInked (s : List Char) : Prop :=
  s ≠ [] ∧ ∀ c ∈ s, isInk c

variable {words : List String} {c : Char}

theorem toList_padLeft (width : Nat) (s : String) :
    (padLeft width s).toList = List.replicate (width - s.length) ' ' ++ s.toList := by
  simp [padLeft]

theorem toList_padRight (width : Nat) (s : String) :
    (padRight width s).toList = s.toList ++ List.replicate (width - s.length) ' ' := by
  simp [padRight]

theorem isInk_of_mem_spaces {n : Nat} (h : c ∈ List.replicate n ' ') : isInk c = false := by
  obtain rfl := List.eq_of_mem_replicate h
  rfl

theorem runs_padLeft (width : Nat) (s : String) :
    runs isInk (padLeft width s).toList = runs isInk s.toList := by
  rw [toList_padLeft, runs_append_of_forall_not fun _ => isInk_of_mem_spaces]

theorem runs_padRight (width : Nat) (s : String) :
    runs isInk (padRight width s).toList = runs isInk s.toList := by
  rw [toList_padRight, runs_append_gap fun _ => isInk_of_mem_spaces]

theorem runs_of_isInked {s : List Char} (h : IsInked s) : runs isInk s = [s] := by
  have hend : ∀ c ∈ [].head?, isInk c = false := by simp
  simpa [runs] using runs_append_of_forall h.1 h.2 hend

theorem isInked_of_isWord {s : List Char} (h : isWord s) : IsInked s := by
  have htoken := Statement.isToken_of_isWord h
  refine ⟨htoken.ne_nil, fun c hc => ?_⟩
  rw [isInk, decide_eq_true_eq]
  rintro rfl
  cases (htoken.plain ' ' hc).1

theorem runs_intercalate (h : ∀ w ∈ words, IsInked w.toList) :
    runs isInk (String.intercalate " " words).toList = words.map String.toList := by
  induction words with
  | nil => rfl
  | cons w words ih =>
    obtain ⟨hw, hwords⟩ := List.forall_mem_cons.mp h
    cases words with
    | nil => simpa using runs_of_isInked hw
    | cons v words =>
      have hsplit : (String.intercalate " " (w :: v :: words)).toList =
          w.toList ++ ' ' :: (String.intercalate " " (v :: words)).toList := by
        simp
      rw [hsplit, runs_append_cons rfl, runs_of_isInked hw, ih hwords]
      rfl

theorem length_intercalate_le {k : Nat} (h : ∀ w ∈ words, w.length ≤ k) :
    (String.intercalate " " words).length ≤ (k + 1) * words.length := by
  induction words with
  | nil => exact Nat.zero_le _
  | cons w words ih =>
    obtain ⟨hw, hwords⟩ := List.forall_mem_cons.mp h
    have hrest := ih hwords
    cases words with
    | nil => simpa using Nat.le_succ_of_le hw
    | cons v words =>
      simp only [String.intercalate_cons_cons, String.length_append, List.length_cons] at *
      have hspace : " ".length = 1 := rfl
      rw [Nat.mul_succ]
      omega

theorem not_mem_padLeft {s : String} (hc : c ≠ ' ') (h : c ∉ s.toList) (width : Nat) :
    c ∉ (padLeft width s).toList := by
  simp [toList_padLeft, hc, h]

theorem not_mem_padRight {s : String} (hc : c ≠ ' ') (h : c ∉ s.toList) (width : Nat) :
    c ∉ (padRight width s).toList := by
  simp [toList_padRight, hc, h]

theorem not_mem_intercalate (hc : c ≠ ' ') (h : ∀ w ∈ words, c ∉ w.toList) :
    c ∉ (String.intercalate " " words).toList := by
  induction words with
  | nil => exact List.not_mem_nil
  | cons w words ih =>
    obtain ⟨hw, hwords⟩ := List.forall_mem_cons.mp h
    cases words with
    | nil => simpa using hw
    | cons v words =>
      have hrest := ih hwords
      simp only [String.intercalate_cons_cons, String.toList_append, List.mem_append, not_or]
      exact ⟨⟨hw, by simpa using hc⟩, hrest⟩

end Text

/-! ## Numbers of the machine -/

section Numbers

open Text

variable {n : Int}

theorem IsNibble.exists_toList_toString (h : IsNibble n) : ∃ k : Nat, k ≤ wordLimit ∧
    n = k ∧ (toString n).toList = numeral 0 k := by
  obtain ⟨k, hk, rfl⟩ := h.exists_nat
  exact ⟨k, Nat.le_of_lt_succ hk, rfl, toList_toString_ofNat k⟩

theorem IsNibble.isDigit_of_mem_toString (h : IsNibble n) {c : Char}
    (hc : c ∈ (toString n).toList) : c.isDigit := by
  obtain ⟨k, -, -, htext⟩ := h.exists_toList_toString
  rw [htext] at hc
  exact isDigit_of_mem_numeral hc

theorem IsNibble.newline_not_mem_toString (h : IsNibble n) : '\n' ∉ (toString n).toList := by
  intro hmem
  cases h.isDigit_of_mem_toString hmem

theorem IsNibble.isInked_toString (h : IsNibble n) : IsInked (toString n).toList := by
  obtain ⟨k, -, -, htext⟩ := h.exists_toList_toString
  rw [htext]
  refine ⟨numeral_ne_nil 0 k, fun c hc => ?_⟩
  have hdigit := isDigit_of_mem_numeral hc
  rw [isInk, decide_eq_true_eq]
  rintro rfl
  cases hdigit

theorem IsNibble.length_toString_le (h : IsNibble n) : (toString n).length ≤ 2 := by
  obtain ⟨k, hk, -, htext⟩ := h.exists_toList_toString
  rw [← String.length_toList, htext]
  exact length_toDigits_le_two hk

/-- The numbers that are read from a column. -/
def numbersIn (column : List Char) : List Int :=
  (runs isInk column).map fun word => (decimal (word.map digitValue) : Nat)

theorem IsNibble.decimal_toString (h : IsNibble n) :
    ((decimal ((toString n).toList.map digitValue) : Nat) : Int) = n := by
  obtain ⟨k, -, rfl, htext⟩ := h.exists_toList_toString
  rw [htext, decimal_map_digitValue, numeral, List.replicate_zero, List.nil_append,
    Nat.ofDigitChars_ten_toDigits]

theorem numbersIn_padLeft (h : IsNibble n) (width : Nat) :
    numbersIn (padLeft width (toString n)).toList = [n] := by
  rw [numbersIn, runs_padLeft, runs_of_isInked h.isInked_toString, List.map_singleton,
    h.decimal_toString]

theorem numbersIn_padRight {ns : List Int} (h : ∀ n ∈ ns, IsNibble n) (width : Nat) :
    numbersIn (padRight width (String.intercalate " " (ns.map toString))).toList = ns := by
  have hinked : ∀ w ∈ ns.map toString, IsInked w.toList := by
    intro w hw
    obtain ⟨n, hn, rfl⟩ := List.mem_map.mp hw
    exact (h n hn).isInked_toString
  rw [numbersIn, runs_padRight, runs_intercalate hinked, List.map_map, List.map_map]
  conv_rhs => rw [← List.map_id ns]
  exact List.map_congr_left fun n hn => (h n hn).decimal_toString

end Numbers

end Nibble
