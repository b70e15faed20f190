import Nibble.Proofs.Scan

/-! # The name of the source

The name that the assembler has for its source appears in what it reports, and nowhere else: under
another name the same text is assembled to the same image and rows, with the same warnings and the
same failure but for that name.
-/

namespace Nibble

open Text

def Warning.withFile (file : Option String) (w : Warning) : Warning :=
  { w with place := ⟨file, w.place.line⟩ }

def Failure.withFile (file : Option String) : Failure → Failure
  | .diagnostic d => .diagnostic ⟨d.cause, ⟨file, d.place.line⟩⟩
  | .defect d => .defect d

theorem Fault.withFile_placed (file name : Option String) (line : Option Int) (fault : Fault) :
    (fault.placed ⟨name, line⟩).withFile file = fault.placed ⟨file, line⟩ := by
  cases fault <;> rfl

namespace Assembler

def withFile (file : Option String) (a : Assembler) : Assembler :=
  { a with file, warnings := a.warnings.map (Warning.withFile file) }

variable {a : Assembler} {file : Option String} {x x' : Result Failure}

theorem new_eq_withFile (file : Option String) : new file = (new none).withFile file := by
  simp [new, withFile]

theorem withFile_bind (name : String) (address : Int) (line : Option Int) :
    (a.withFile file).bind name address line = (a.bind name address line).withFile file := by
  have hsymbols : (a.withFile file).image.symbols = a.image.symbols := rfl
  unfold bind
  rw [hsymbols]
  cases a.image.symbols.find? name with
  | none => rfl
  | some previous => simp [withFile, Warning.withFile]

/-- Whether an operation on an assembler and on the same one with another name for the source have
the same result but for the name. A failure may come without a name on either side. -/
structure Renames (file : Option String) (x x' : Result Failure) : Prop where
  left : x'.1 = x.1.withFile file
  ending : x'.2.mapError (Failure.withFile file) = x.2.mapError (Failure.withFile file)

theorem Renames.cases (h : Renames file x x') :
    (∃ b, x = (b, .ok ()) ∧ x' = (b.withFile file, .ok ())) ∨
      ∃ b failure failure', x = (b, .error failure) ∧ x' = (b.withFile file, .error failure') ∧
        failure'.withFile file = failure.withFile file := by
  obtain ⟨b, r⟩ := x
  obtain ⟨b', r'⟩ := x'
  obtain ⟨rfl, hr⟩ := h
  cases r with
  | ok =>
    cases r' with
    | ok => exact .inl ⟨b, rfl, rfl⟩
    | error failure' => cases hr
  | error failure =>
    cases r' with
    | ok => cases hr
    | error failure' => exact .inr ⟨b, failure, failure', rfl, rfl, Except.error.inj hr⟩

theorem Renames.of_placed (a : Assembler) (line : Option Int) (fault : Fault) :
    Renames file (a, .error (fault.placed ⟨a.file, line⟩))
      (a.withFile file, .error (fault.placed ⟨file, line⟩)) where
  left := rfl
  ending := by simp only [Except.mapError, Fault.withFile_placed]

theorem renames_record (row : Row) :
    Renames file (a.record row) ((a.withFile file).record row) := by
  have himage : (a.withFile file).image = a.image := rfl
  unfold record
  rw [himage]
  split <;> exact ⟨rfl, rfl⟩

theorem renames_enter (source : String) (line : Option Int) (s : Statement) :
    Renames file (a.enter source line s) ((a.withFile file).enter source line s) := by
  have himage : (a.withFile file).image = a.image := rfl
  cases s with
  | data name value =>
    simp only [enter, himage]
    split
    · exact ⟨rfl, rfl⟩
    next image _ =>
      change Renames file _ ((withFile file { a with image }).bind name _ line |>.record _)
      rw [withFile_bind]
      exact renames_record _
  | label name =>
    simp only [enter, himage, withFile_bind]
    exact renames_record _
  | instruction mnemonic tokens =>
    simp only [enter, himage]
    split
    · exact .of_placed a line _
    · split
      · exact ⟨rfl, rfl⟩
      · exact renames_record _

theorem renames_addLine (raw : List Char) (line : Option Int) :
    Renames file (a.addLine raw line) ((a.withFile file).addLine raw line) := by
  unfold addLine
  split
  · exact .of_placed a line _
  · exact ⟨rfl, rfl⟩
  · exact renames_enter _ _ _

theorem locate_withFile (line : Int) {failure failure' : Failure}
    (h : failure'.withFile file = failure.withFile file) :
    (a.withFile file).locate line failure' = (a.locate line failure).withFile file := by
  cases failure with
  | defect d =>
    cases failure' with
    | defect d' => exact h
    | diagnostic d' => cases h
  | diagnostic d =>
    cases failure' with
    | defect d' => cases h
    | diagnostic d' =>
      simp only [Failure.withFile, Failure.diagnostic.injEq, Diagnostic.mk.injEq, Place.mk.injEq,
        true_and] at h
      simp only [locate, h.1, h.2]
      rfl

theorem addLines_withFile (line : Int) (raws : List (List Char)) :
    (a.withFile file).addLines line raws =
      ((a.addLines line raws).1.withFile file,
        (a.addLines line raws).2.mapError (Failure.withFile file)) := by
  induction raws generalizing a line with
  | nil => rfl
  | cons raw raws ih =>
    rw [addLines, addLines]
    rcases (renames_addLine (a := a) (trimEnd (· = '\r') raw) (some line)).cases with
      ⟨b, h, h'⟩ | ⟨b, failure, failure', h, h', hf⟩
    · rw [h, h']
      exact ih (line + 1)
    · rw [h, h']
      exact Prod.ext rfl (congrArg Except.error (locate_withFile line hf))

/-- Under another name for the source the same text is assembled alike. -/
theorem assemble_withFile (text : String) :
    (a.withFile file).assemble text =
      ((a.assemble text).1.withFile file,
        (a.assemble text).2.mapError (Failure.withFile file)) := by
  unfold assemble
  rw [addLines_withFile]
  rcases a.addLines 1 (lines text.toList) with ⟨b, failure | ⟨⟩⟩
  · rfl
  · have himage : (b.withFile file).image = b.image := rfl
    simp only [resolve, himage, Except.mapError]
    cases b.image.resolve <;> rfl

end Assembler

end Nibble
