import Nibble.Proofs.Packed

/-! # Lines that fail

A line that fails adds no row. Either it leaves the assembler as it was, or it closes the image:
all cells are code, or the cursors have passed each other. No statement can be entered into a closed
image, and as the cursors never move back, a closed image stays closed.
-/

namespace Nibble

namespace Image

/-- The code has taken all cells, or one that was kept for data. -/
structure Closed (image : Image) : Prop where
  dataCursor : image.dataCursor ≤ wordLimit
  met : memorySize ≤ image.codeCursor ∨ image.dataCursor + 2 ≤ image.codeCursor

/-- The cursors of an image have only moved towards each other. -/
structure Advances (image image' : Image) : Prop where
  code : image.codeCursor ≤ image'.codeCursor
  data : image'.dataCursor ≤ image.dataCursor

variable {image image' : Image}

theorem Advances.refl (image : Image) : image.Advances image :=
  ⟨Int.le_refl _, Int.le_refl _⟩

theorem Closed.of_advances (h : image.Closed) (ha : image.Advances image') : image'.Closed where
  dataCursor := Int.le_trans ha.data h.dataCursor
  met := by
    have hcode := ha.code
    have hdata := ha.data
    exact h.met.imp (fun hm => Int.le_trans hm hcode) (fun hm => by omega)

theorem advances_insertCells (image : Image) (cells : List Cell) :
    image.Advances (image.insertCells cells).1 := by
  induction cells generalizing image with
  | nil => exact .refl image
  | cons cell cells ih =>
    unfold insertCells
    split
    next filled hf =>
      obtain ⟨hc, hd⟩ := insertCode_eq_ok hf
      obtain ⟨hcode, hdata⟩ := ih filled
      exact ⟨by omega, by omega⟩
    next => exact .refl image

end Image

namespace Layout

/-- An image is closed when the cursors have moved on by more cells than there was room for. -/
theorem closed (l : Layout) {image : Image} {m k : Nat}
    (hcode : image.codeCursor = l.code.length + m) (hdata : image.dataCursor = l.dataCursor - k)
    (hfull : memorySize ≤ l.code.length + m ∨ memorySize < l.size + m + k) : image.Closed where
  dataCursor := by
    have := l.dataCursor_le
    omega
  met := by
    unfold size dataCursor at *
    omega

end Layout

namespace Assembler

open Source

variable {a a' : Assembler} {l : Layout} {s : Statement} {source : String} {line : Option Int}
  {raw : List Char} {failure : Failure}

theorem advances_enter (a : Assembler) (source : String) (line : Option Int) (s : Statement) :
    a.image.Advances (a.enter source line s).1.image := by
  cases s with
  | data name value =>
    simp only [enter]
    split
    · exact .refl _
    next image hi =>
      obtain ⟨hc, hd⟩ := Image.insertData_eq_ok hi
      rw [image_record, image_bind]
      exact ⟨Int.le_of_eq hc.symm, by simp only [Image.addSymbol]; omega⟩
  | label name =>
    simp only [enter, image_record, image_bind]
    exact ⟨Int.le_refl _, Int.le_refl _⟩
  | instruction mnemonic tokens =>
    simp only [enter]
    split
    · exact .refl _
    next cells _ =>
      have hadv := a.image.advances_insertCells cells
      split
      next hi => rwa [hi] at hadv
      next hi =>
        rw [image_record]
        rwa [hi] at hadv

theorem advances_addLine (a : Assembler) (raw : List Char) (line : Option Int) :
    a.image.Advances (a.addLine raw line).1.image := by
  unfold addLine
  split
  · exact .refl _
  · exact .refl _
  · exact advances_enter ..

theorem enter_ne_ok_of_closed (h : a.image.Closed) :
    a.enter source line s ≠ (a', .ok ()) := by
  intro he
  obtain ⟨hd, hm⟩ := h
  cases s with
  | data name value =>
    obtain ⟨image, hi, hr⟩ := enter_data_eq_ok_iff.mp he
    have hcursors := Image.insertData_eq_ok hi
    have ho := Image.checkOverlap_eq_ok_iff.mp (record_eq_ok_iff.mp hr).1
    simp only [image_bind, Image.addSymbol, hcursors] at ho
    unfold memorySize wordLimit at *
    omega
  | label name =>
    obtain ⟨ho, hr, -⟩ := record_eq_ok_iff.mp he
    have hb := (Image.checkRange_eq_ok_iff.mp hr).2 _
      (Keyed.mem_insert_self a.image.symbols.bindings name a.image.codeCursor)
    simp only [Image.checkOverlap_eq_ok_iff, image_bind, Image.addSymbol] at ho
    unfold memorySize wordLimit at *
    omega
  | instruction mnemonic tokens =>
    obtain ⟨c, image, -, hi, hr⟩ := enter_instruction_eq_ok_iff.mp he
    have hcursors := Image.insertCells_eq_ok hi
    have ho := Image.checkOverlap_eq_ok_iff.mp (record_eq_ok_iff.mp hr).1
    have hpos := c.size_pos
    simp only [hcursors, Command.length_cells] at ho
    unfold memorySize wordLimit at *
    omega

theorem Holds.enter_of_not_room (h : a.Holds l) (source : String) (line : Option Int)
    (hr : ∀ item, s.item? = some item → ¬ l.Room item) :
    (a.enter source line s).1 = a ∨ (a.enter source line s).1.image.Closed := by
  cases s with
  | data name value =>
    have hfull : memorySize < l.size + 1 := Nat.not_le.mp (hr _ rfl)
    simp only [Assembler.enter, h.image]
    split
    · exact .inl rfl
    next image hi =>
      obtain ⟨hcode, hdata⟩ := Image.insertData_eq_ok hi
      rw [image_record, image_bind]
      exact .inr (l.closed (m := 0) (k := 1) hcode hdata (.inr hfull))
  | label name =>
    have hfull : memorySize ≤ l.code.length := Nat.not_lt.mp (hr _ rfl)
    have hclosed : l.image.Closed :=
      l.closed (m := 0) (k := 0) rfl (Int.sub_zero _).symm (.inl hfull)
    simp only [Assembler.enter, image_record, image_bind, h.image]
    exact .inr ⟨hclosed.dataCursor, hclosed.met⟩
  | instruction mnemonic tokens =>
    simp only [Assembler.enter]
    split
    · exact .inl rfl
    next cells he =>
      obtain ⟨c, hc, rfl⟩ := Instruction.encode_eq_ok_iff.mp he
      have hfull : memorySize < l.size + c.size :=
        Nat.not_le.mp (hr (.command c) (by rw [Statement.item?, hc, Option.map_some]))
      rw [h.image]
      right
      split
      next image fault hi =>
        have hcode := ((Layout.framed h.fits.size).insertCells_eq_error hi).2
        have hadv := l.image.advances_insertCells (c.cells l.image.codeCursor line)
        rw [hi] at hadv
        exact ⟨Int.le_trans hadv.data l.dataCursor_le, .inl hcode⟩
      next image hi =>
        obtain ⟨hcode, hdata⟩ := Image.insertCells_eq_ok hi
        rw [Command.length_cells] at hcode
        rw [image_record]
        exact l.closed (k := 0) hcode (hdata.trans (Int.sub_zero _).symm) (.inr hfull)

/-- A line that fails in the image of a layout either changes nothing or closes the image. -/
theorem Holds.addLine_of_error (h : a.Holds l) (he : a.addLine raw line = (a', .error failure)) :
    a' = a ∨ a'.image.Closed := by
  cases hp : Statement.parse raw with
  | error fault =>
    rw [Assembler.addLine, hp] at he
    cases he
    exact .inl rfl
  | ok s? =>
    cases s? with
    | none =>
      rw [addLine_of_blank hp] at he
      cases he
    | some s =>
      have hs := statement?_eq_some_iff.mpr hp
      have hroom : ∀ item, s.item? = some item → ¬ l.Room item := by
        intro item hi hr
        have hitem : item? raw = some item := by rw [item?, hs, Option.bind_some, hi]
        obtain ⟨b, hb, -⟩ := h.addLine line hitem hr
        rw [he] at hb
        cases hb
      rw [addLine_of_statement hs] at he
      have hcases := h.enter_of_not_room (String.ofList (Text.trim raw)) line hroom
      rwa [he] at hcases

/-! ## Runs with failures -/

/-- The assembler after some lines, of which any may have failed. -/
def after (a : Assembler) (lines : List (Option Int × List Char)) : Assembler :=
  lines.foldl (fun a x => (a.addLine x.2 x.1).1) a

/-- What is known of an assembler after such lines. -/
def Reached (a : Assembler) : Prop :=
  (∃ l, a.Holds l) ∨ a.image.Closed

theorem Reached.addLine (h : a.Reached) (raw : List Char) (line : Option Int) :
    (a.addLine raw line).1.Reached := by
  rcases h with ⟨l, hl⟩ | hclosed
  · rcases ha : a.addLine raw line with ⟨b, failure | ⟨⟩⟩
    · rcases hl.addLine_of_error ha with rfl | hb
      · exact .inl ⟨l, hl⟩
      · exact .inr hb
    · rcases hl.cases_addLine ha with ⟨-, rfl⟩ | ⟨item, -, -, hbl⟩
      · exact .inl ⟨l, hl⟩
      · exact .inl ⟨_, hbl⟩
  · exact .inr (hclosed.of_advances (advances_addLine a raw line))

theorem Reached.after (h : a.Reached) (lines : List (Option Int × List Char)) :
    (a.after lines).Reached := by
  induction lines generalizing a with
  | nil => exact h
  | cons x lines ih => exact ih (h.addLine x.2 x.1)

theorem closed_after (h : a.image.Closed) (lines : List (Option Int × List Char)) :
    (a.after lines).image.Closed := by
  induction lines generalizing a with
  | nil => exact h
  | cons x lines ih => exact ih (h.of_advances (advances_addLine a x.2 x.1))

theorem rows_of_enter_eq_error (h : a.enter source line s = (a', .error failure)) :
    a'.rows = a.rows := by
  cases s with
  | data name value =>
    simp only [enter] at h
    split at h
    · cases h
      rfl
    · rw [(record_eq_error h).1]
      rfl
  | label name =>
    rw [(record_eq_error h).1]
    rfl
  | instruction mnemonic tokens =>
    simp only [enter] at h
    split at h
    · cases h
      rfl
    · split at h
      · cases h
        rfl
      · rw [(record_eq_error h).1]

theorem rows_of_addLine_eq_error (h : a.addLine raw line = (a', .error failure)) :
    a'.rows = a.rows := by
  unfold addLine at h
  split at h
  · cases h
    rfl
  · cases h
  · exact rows_of_enter_eq_error h

/--
Whatever lines have been assembled, failing ones too, a line that fails adds no row. It changes
nothing, or else no line with a statement passes any more, whatever lines come in between. Nothing
is changed by a line that cannot be read, whose instruction cannot be encoded, or for whose datum
there is no cell.
-/
theorem unchanged_or_closed_of_addLine {file : Option String}
    {earlier : List (Option Int × List Char)} (ha : a = (new file).after earlier)
    (h : a.addLine raw line = (a', .error failure)) :
    a'.rows = a.rows ∧
    (a' = a ∨ ∀ later line raw s, statement? raw = some s →
      ∃ failure, ((a'.after later).addLine raw line).2 = .error failure) ∧
    ((∃ fault, Statement.parse raw = .error fault) → a' = a) ∧
    (∀ mnemonic tokens fault, statement? raw = some (.instruction mnemonic tokens) →
      Instruction.encode mnemonic tokens a.image.codeCursor line = .error fault → a' = a) ∧
    ∀ name value fault, statement? raw = some (.data name value) →
      a.image.insertData (.value value) = .error fault → a' = a := by
  have hreached : a.Reached := ha ▸ Reached.after (.inl ⟨_, holds_new file⟩) earlier
  refine ⟨rows_of_addLine_eq_error h, ?_, ?_, ?_, ?_⟩
  · have hcases : a' = a ∨ a'.image.Closed := by
      rcases hreached with ⟨l, hl⟩ | hclosed
      · exact hl.addLine_of_error h
      · have hadv := advances_addLine a raw line
        rw [h] at hadv
        exact .inr (hclosed.of_advances hadv)
    refine hcases.imp_right fun hclosed later line raw s hs => ?_
    rw [addLine_of_statement hs]
    rcases he : (a'.after later).enter (String.ofList (Text.trim raw)) line s with
      ⟨b, failure | ⟨⟩⟩
    · exact ⟨failure, rfl⟩
    · exact absurd he (enter_ne_ok_of_closed (closed_after hclosed later))
  · rintro ⟨fault, hp⟩
    rw [addLine, hp] at h
    cases h
    rfl
  · intro mnemonic tokens fault hs he
    rw [addLine_of_statement hs] at h
    simp only [enter, he] at h
    cases h
    rfl
  · intro name value fault hs hi
    rw [addLine_of_statement hs] at h
    simp only [enter, hi] at h
    cases h
    rfl

/-- The code of the last line is written over the datum. -/
theorem unchanged_or_closed_of_addLine_overwritten :
    let earlier := [(some 1, "prnt %r0".toList), (some 2, "prnt %r0".toList),
      (some 3, "prnt %r0".toList), (some 4, ".data n, 5".toList), (some 5, "jmp %r0".toList)]
    let a := (new none).after earlier
    ∃ a' failure, a.addLine "prnt %r1".toList (some 6) = (a', .error failure) ∧ a' ≠ a ∧
      a'.rows = a.rows ∧
      (a' = a ∨ ∀ later line raw s, statement? raw = some s →
        ∃ failure, ((a'.after later).addLine raw line).2 = .error failure) ∧
      ((∃ fault, Statement.parse "prnt %r1".toList = .error fault) → a' = a) ∧
      (∀ mnemonic tokens fault,
        statement? "prnt %r1".toList = some (.instruction mnemonic tokens) →
        Instruction.encode mnemonic tokens a.image.codeCursor (some 6) = .error fault → a' = a) ∧
      ∀ name value fault, statement? "prnt %r1".toList = some (.data name value) →
        a.image.insertData (.value value) = .error fault → a' = a := by
  intro earlier a
  have h : (a.addLine "prnt %r1".toList (some 6)).2 =
      .error (.diagnostic ⟨.overlap, .unknown⟩) := by rfl
  have hne : (a.addLine "prnt %r1".toList (some 6)).1 ≠ a := by decide +kernel
  exact ⟨_, _, Prod.ext rfl h, hne, unchanged_or_closed_of_addLine rfl (Prod.ext rfl h)⟩

end Assembler

end Nibble
