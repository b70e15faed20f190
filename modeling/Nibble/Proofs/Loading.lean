import Nibble.Program
import Nibble.Proofs.Numeral
import Nibble.Proofs.Packed

/-! # Loading programs

A text is loaded as the numbers that it spells, whatever stands between them. The text of an image
spells its cells.
-/

namespace Nibble

open Text

namespace Program

/--
The numbers that a text spells: before each numeral there is no digit, and none follows it. The
zeros of a numeral count towards the digits that it may have.
-/
inductive Spells : List Char → List Nat → Prop
  | nil {rest : List Char} (h : ∀ c ∈ rest, c.isDigit = false) : Spells rest []
  | cons (gap : List Char) {rest : List Char} {zeros value : Nat} {values : List Nat}
    (hgap : ∀ c ∈ gap, c.isDigit = false) (hlen : (numeral zeros value).length ≤ maxDigits)
    (hend : ∀ c ∈ rest.head?, c.isDigit = false) (h : Spells rest values) :
    Spells (gap ++ (numeral zeros value ++ rest)) (value :: values)

/-- The memory that begins with some numbers and holds zeros after them. -/
def memoryOf (values : List Nat) : List Int :=
  values.map Int.ofNat ++ List.replicate (memorySize - values.length) 0

variable {text : String} {values : List Nat} {memory : List Int}

theorem Spells.numbers? (h : Spells text.toList values) : numbers? text = some values := by
  unfold Program.numbers?
  generalize text.toList = s at h
  induction h with
  | nil h => rw [runs_eq_nil_iff.mpr h, List.mapM_nil, Option.pure_def]
  | @cons gap rest zeros value values hgap hlen hend _ ih =>
    have hruns : runs Char.isDigit (gap ++ (numeral zeros value ++ rest)) =
        numeral zeros value :: runs Char.isDigit rest := by
      rw [runs_append_of_forall_not hgap]
      exact runs_append_of_forall (numeral_ne_nil zeros value)
        (fun c hc => isDigit_of_mem_numeral hc) hend
    rw [hruns, List.mapM_cons, numeralValue?_numeral hlen, ih]
    rfl

theorem Spells.append (gap : List Char) {s : List Char} (hgap : ∀ c ∈ gap, c.isDigit = false)
    (h : Spells s values) : Spells (gap ++ s) values := by
  cases h with
  | nil h => exact .nil (List.forall_mem_append.mpr ⟨hgap, h⟩)
  | cons gap' hgap' hlen hend h =>
    rw [← List.append_assoc]
    exact .cons (gap ++ gap') (List.forall_mem_append.mpr ⟨hgap, hgap'⟩) hlen hend h

theorem Spells.cons_digit {c : Char} {s : List Char} (hc : c.isDigit) (h : Spells s values)
    (hlen : ∀ run, run <:+: c :: s → (∀ d ∈ run, d.isDigit) → run.length ≤ maxDigits) :
    ∃ values, Spells (c :: s) values := by
  by_cases hs : ∀ d ∈ s.head?, d.isDigit = false
  · obtain ⟨zeros, value, hn⟩ := exists_numeral (List.cons_ne_nil c []) (by simpa using hc)
    have hn' : (numeral zeros value).length ≤ maxDigits := hn ▸ (by decide : 1 ≤ maxDigits)
    have hspells := Spells.cons [] (by simp) hn' hs h
    rw [← hn] at hspells
    exact ⟨_, hspells⟩
  · cases h with
    | nil h => exact absurd (fun d hd => h d (List.mem_of_mem_head? hd)) hs
    | @cons gap rest zeros value values hgap _ hend h =>
      -- the digit joins the first numeral, so that nothing can stand between them
      obtain rfl : gap = [] := by
        by_contra hne
        apply hs
        intro d hd
        rw [List.head?_append_of_ne_nil _ hne] at hd
        exact hgap d (List.mem_of_mem_head? hd)
      have hdigits : ∀ d ∈ c :: numeral zeros value, d.isDigit :=
        List.forall_mem_cons.mpr ⟨hc, fun d hd => isDigit_of_mem_numeral hd⟩
      have hinfix : c :: numeral zeros value <:+: c :: ([] ++ (numeral zeros value ++ rest)) :=
        (List.prefix_append (c :: numeral zeros value) rest).isInfix
      have hle := hlen _ hinfix hdigits
      obtain ⟨zeros', value', hn⟩ := exists_numeral (List.cons_ne_nil c _) hdigits
      rw [hn] at hle
      have hspells := Spells.cons [] (by simp) hle hend h
      rw [← hn] at hspells
      exact ⟨_, hspells⟩

/-- A text without too long a row of digits spells some numbers. -/
theorem exists_spells {s : List Char}
    (h : ∀ run, run <:+: s → (∀ c ∈ run, c.isDigit) → run.length ≤ maxDigits) :
    ∃ values, Spells s values := by
  induction s with
  | nil => exact ⟨[], .nil (by simp)⟩
  | cons c s ih =>
    obtain ⟨values, hs⟩ := ih fun run hr => h run (hr.trans (List.suffix_cons c s).isInfix)
    cases hc : c.isDigit with
    | false => exact ⟨values, hs.append [c] (by simpa using hc)⟩
    | true => exact hs.cons_digit hc h

/-- A text is loaded if it has at most sixteen numbers, all of them words. -/
theorem load_eq_ok_iff : load text = .ok memory ↔ ∃ values, numbers? text = some values ∧
    values.length ≤ memorySize ∧ (∀ v ∈ values, v ≤ wordLimit) ∧ memory = memoryOf values := by
  unfold load
  cases numbers? text with
  | none => simp
  | some values =>
    simp only [Option.some.injEq, exists_eq_left']
    split
    next hbig => simp [Nat.not_le.mpr hbig]
    next hfit =>
      split
      next v hv =>
        have hlt : wordLimit < v := by simpa using List.find?_some hv
        have hmem := List.mem_of_find?_eq_some hv
        simp only [reduceCtorEq, false_iff]
        rintro ⟨-, hall, -⟩
        exact absurd (hall v hmem) (Nat.not_le.mpr hlt)
      next hv =>
        have hall : ∀ v ∈ values, v ≤ wordLimit := by simpa using hv
        simp only [Except.ok.injEq]
        constructor
        · intro he
          exact ⟨Nat.not_lt.mp hfit, hall, he.symm⟩
        · rintro ⟨-, -, he⟩
          exact he.symm

theorem load_eq_programTooBig_iff (h : numbers? text = some values) :
    load text = .error (.cause .programTooBig) ↔ memorySize < values.length := by
  simp only [load, h]
  split
  next hbig => simp [hbig]
  next hfit => split <;> simp [hfit]

theorem load_eq_programCellTooLarge_iff (h : numbers? text = some values) {v : Nat} :
    load text = .error (.cause (.programCellTooLarge v)) ↔ values.length ≤ memorySize ∧
      ∃ before after, values = before ++ v :: after ∧ (∀ u ∈ before, u ≤ wordLimit) ∧
        wordLimit < v := by
  have hfind : values.find? (wordLimit < ·) = some v ↔ ∃ before after,
      values = before ++ v :: after ∧ (∀ u ∈ before, u ≤ wordLimit) ∧ wordLimit < v := by
    rw [List.find?_eq_some_iff_append]
    simp only [decide_eq_true_eq, Bool.not_eq_eq_eq_not, Bool.not_true, decide_eq_false_iff_not,
      Nat.not_lt]
    constructor
    · rintro ⟨hv, before, after, he, hle⟩
      exact ⟨before, after, he, hle, hv⟩
    · rintro ⟨before, after, he, hle, hv⟩
      exact ⟨hv, before, after, he, hle⟩
  rw [← hfind]
  simp only [load, h]
  split
  next hbig => simp [Nat.not_le.mpr hbig]
  next hfit =>
    split
    next u hu => simp [Nat.not_lt.mp hfit, hu]
    next hnone => simp [hnone]

theorem words_of_load (h : load text = .ok memory) : ∃ words : List Nat,
    words.length = memorySize ∧ (∀ n ∈ words, n ≤ wordLimit) ∧ memory = words.map Int.ofNat := by
  obtain ⟨values, -, hlen, hall, rfl⟩ := load_eq_ok_iff.mp h
  refine ⟨values ++ List.replicate (memorySize - values.length) 0, ?_, ?_, ?_⟩
  · simp [hlen]
  · intro n hn
    rcases List.mem_append.mp hn with hn | hn
    · exact hall n hn
    · obtain rfl := List.eq_of_mem_replicate hn
      exact Nat.zero_le _
  · simp [memoryOf]

theorem spells_intercalate (h : ∀ v ∈ values, v ≤ wordLimit) :
    Spells ([' '].intercalate (values.map (Nat.toDigits 10))) values := by
  induction values with
  | nil => exact .nil (by simp)
  | cons v values ih =>
    obtain ⟨hv, hvalues⟩ := List.forall_mem_cons.mp h
    have hlen : (numeral 0 v).length ≤ maxDigits :=
      Nat.le_trans (length_toDigits_le_two hv) (by decide)
    cases values with
    | nil =>
      have hend : Spells [] [] := .nil (by simp)
      have hv := Spells.cons [] (by simp) hlen (by simp) hend
      simpa [numeral] using hv
    | cons w values =>
      have hrest := (ih hvalues).append [' '] (by simp)
      have hv := Spells.cons [] (by simp) hlen (by simp) hrest
      simpa [numeral, List.intercalate_cons_cons] using hv

end Program

/-- The words that an image prints are loaded. -/
theorem Image.load_text {image : Image} {words : List Nat}
    (hm : image.memory = words.map fun n => .value n) (hl : words.length = memorySize)
    (hw : ∀ n ∈ words, n ≤ wordLimit) : Program.load image.text = .ok (words.map Int.ofNat) := by
  have htext : image.text.toList = [' '].intercalate (words.map (Nat.toDigits 10)) := by
    rw [Image.text, String.toList_intercalate, hm, List.map_map, List.map_map]
    exact congrArg _ (List.map_congr_left fun n _ => toList_toString_ofNat n)
  refine Program.load_eq_ok_iff.mpr ⟨words, ?_, Nat.le_of_eq hl, hw, ?_⟩
  · exact Program.Spells.numbers? (htext ▸ Program.spells_intercalate hw)
  · rw [Program.memoryOf, hl, Nat.sub_self, List.replicate_zero, List.append_nil]

namespace Program

/--
A text is loaded as the numbers that it spells, and refused if they are too many, whatever they
are, or else for the first that is no word, which the refusal names. All texts spell numbers but
those with too long a row of digits. What an assembled image prints is loaded as its memory, and a
memory that was loaded can be printed and loaded again.
-/
theorem load_of_spells_and_load_text :
    (∀ (text : String) (values : List Nat), Spells text.toList values →
      (∀ memory, load text = .ok memory ↔ values.length ≤ memorySize ∧
        (∀ v ∈ values, v ≤ wordLimit) ∧ memory = memoryOf values) ∧
      ((∃ fault, load text = .error fault) ↔
        memorySize < values.length ∨ ∃ v ∈ values, wordLimit < v) ∧
      (load text = .error (.cause .programTooBig) ↔ memorySize < values.length) ∧
      ∀ v, load text = .error (.cause (.programCellTooLarge v)) ↔ values.length ≤ memorySize ∧
        ∃ before after, values = before ++ v :: after ∧ (∀ u ∈ before, u ≤ wordLimit) ∧
          wordLimit < v) ∧
    (∀ text : String,
      (∀ run, run <:+: text.toList → (∀ c ∈ run, c.isDigit) → run.length ≤ maxDigits) →
        ∃ values, Spells text.toList values) ∧
    (∀ file text a, (Assembler.new file).assemble text = (a, .ok ()) →
      ∃ memory : List Int, a.image.memory = memory.map Cell.value ∧
        load a.image.text = .ok memory) ∧
    (∀ text memory (image : Image), load text = .ok memory →
      image.memory = memory.map Cell.value → load image.text = .ok memory) ∧
    Cause.programTooBig.message = "program too big" ∧
    ∀ v, (Cause.programCellTooLarge v).message =
      "program contains value " ++ toString v ++ ", too large for a 4-bit machine" := by
  refine ⟨?_, fun text => exists_spells, ?_, ?_, rfl, fun _ => rfl⟩
  · intro text values h
    have hn := h.numbers?
    have hok : ∀ memory, load text = .ok memory ↔ values.length ≤ memorySize ∧
        (∀ v ∈ values, v ≤ wordLimit) ∧ memory = memoryOf values := by
      intro memory
      rw [load_eq_ok_iff, hn]
      simp
    refine ⟨hok, ?_, load_eq_programTooBig_iff hn, fun v => load_eq_programCellTooLarge_iff hn⟩
    have hfail : (∃ fault, load text = .error fault) ↔ ¬ ∃ memory, load text = .ok memory := by
      cases load text <;> simp
    rw [hfail]
    simp only [hok, exists_and_left, exists_eq, and_true, not_and_or, Nat.not_le, not_forall,
      exists_prop]
  · intro file text a h
    obtain ⟨b, image, hr, hb, rfl⟩ := Assembler.assemble_eq_ok_iff.mp h
    have hlb := ((Assembler.holds_new file).of_feed hb).1
    obtain ⟨words, hlen, hall, hm⟩ := (hlb.image ▸ hlb.fits.packed).words_of_resolve hr
    exact ⟨words.map Int.ofNat, by rw [hm, List.map_map]; rfl, Image.load_text hm hlen hall⟩
  · intro text memory image h hm
    obtain ⟨words, hlen, hall, rfl⟩ := words_of_load h
    exact Image.load_text (by rw [hm, List.map_map]; rfl) hlen hall

/-- Two numerals with zeros in front, after a digit of another script. -/
theorem load_of_spells_and_load_text_zeros :
    let text := "٣ 007,0015;"
    Spells text.toList [7, 15] ∧
      ((∀ memory, load text = .ok memory ↔ [7, 15].length ≤ memorySize ∧
        (∀ v ∈ [7, 15], v ≤ wordLimit) ∧ memory = memoryOf [7, 15]) ∧
      ((∃ fault, load text = .error fault) ↔
        memorySize < [7, 15].length ∨ ∃ v ∈ [7, 15], wordLimit < v) ∧
      (load text = .error (.cause .programTooBig) ↔ memorySize < [7, 15].length) ∧
      ∀ v, load text = .error (.cause (.programCellTooLarge v)) ↔ [7, 15].length ≤ memorySize ∧
        ∃ before after, [7, 15] = before ++ v :: after ∧ (∀ u ∈ before, u ≤ wordLimit) ∧
          wordLimit < v) ∧
      (∃ values, Spells text.toList values) ∧
      (∃ a, (Assembler.new none).assemble "prnt $5" = (a, .ok ()) ∧
        ∃ memory : List Int, a.image.memory = memory.map Cell.value ∧
          load a.image.text = .ok memory) ∧
      load text = .ok (memoryOf [7, 15]) ∧
      load { Image.blank memorySize with memory := (memoryOf [7, 15]).map Cell.value }.text =
        .ok (memoryOf [7, 15]) := by
  intro text
  obtain ⟨hspelled, hshort, himage, hagain, -, -⟩ := load_of_spells_and_load_text
  have htext : text.toList =
      ['٣', ' '] ++ (numeral 2 7 ++ ([','] ++ (numeral 2 15 ++ [';']))) := by decide
  have hend : Spells [';'] [] := .nil (by simp)
  have hspells : Spells text.toList [7, 15] := by
    rw [htext]
    exact .cons _ (by simp) (by decide) (by simp) (.cons _ (by simp) (by decide) (by simp) hend)
  have hload := ((hspelled text _ hspells).1 (memoryOf [7, 15])).mpr
    ⟨by decide, by decide, rfl⟩
  have ha : ((Assembler.new none).assemble "prnt $5").2 = .ok () := by rfl
  exact ⟨hspells, hspelled text _ hspells,
    hshort text fun run hrun _ => Nat.le_trans hrun.length_le (by decide),
    ⟨_, Prod.ext rfl ha, himage none _ _ (Prod.ext rfl ha)⟩, hload, hagain text _ _ hload rfl⟩

end Program

end Nibble
