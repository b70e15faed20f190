import Nibble.Proofs.Grammar
import Nibble.Proofs.Translation

/-! # Spacing

White space around a line, a comment after it and lines that hold nothing else do not change what a
source is assembled to. All they do is move its lines, and with these the places in what the
assembler reports.
-/

namespace Nibble

open List (Forall₂)
open Text

namespace Source

/-- A line with more white space around it, and with more comments after it. -/
inductive Padded (raw : List Char) : List Char → Prop
  | refl : Padded raw raw
  | lead {gap raw' : List Char} (hgap : ∀ c ∈ gap, isBlank c ∧ c ≠ '\n') (h : Padded raw raw') :
    Padded raw (gap ++ raw')
  | trail {gap raw' : List Char} (hgap : ∀ c ∈ gap, isBlank c ∧ c ≠ '\n') (h : Padded raw raw') :
    Padded raw (raw' ++ gap)
  | comment {text raw' : List Char} (htext : '\n' ∉ text) (h : Padded raw raw') :
    Padded raw (raw' ++ '#' :: text)

/--
Lines that are numbered from some number on and result from others by padding each of them and by
putting padded empty lines between them. Each line has moved to the number that `move` gives it.
-/
inductive Relaid (move : Int → Int) : Int → List (List Char) → Int → List (List Char) → Prop
  | nil (n n' : Int) : Relaid move n [] n' []
  | line {n n' : Int} {raw raw' : List Char} {raws raws' : List (List Char)} (hn : move n = n')
    (h : Padded raw raw') (hrest : Relaid move (n + 1) raws (n' + 1) raws') :
    Relaid move n (raw :: raws) n' (raw' :: raws')
  | blank {n n' : Int} {raw' : List Char} {raws raws' : List (List Char)} (h : Padded [] raw')
    (hrest : Relaid move n raws (n' + 1) raws') : Relaid move n raws n' (raw' :: raws')

end Source

/-! ## Padded lines are read alike -/

namespace Statement

variable {raw s gap : List Char}

theorem parse_of_body_eq {raw' : List Char} (h : body raw' = body raw) : parse raw' = parse raw := by
  rw [parse, parse, h]

theorem IsBody.lead (h : IsBody raw s) (hgap : ∀ c ∈ gap, isBlank c) : IsBody (gap ++ raw) s := by
  cases h with
  | @intro lead _ trail comment hlead hhead hplain hlast htrail hcomment =>
    have hlead := List.forall_mem_append.mpr ⟨hgap, hlead⟩
    simpa using IsBody.intro hlead hhead hplain hlast htrail hcomment

theorem IsBody.trail (h : IsBody raw s) (hgap : ∀ c ∈ gap, isBlank c) : IsBody (raw ++ gap) s := by
  cases h with
  | @intro lead _ trail comment hlead hhead hplain hlast htrail hcomment =>
    cases comment with
    | nil =>
      have htrail := List.forall_mem_append.mpr ⟨htrail, hgap⟩
      simpa using IsBody.intro hlead hhead hplain hlast htrail hcomment
    | cons c comment =>
      -- white space after a comment belongs to it
      have hcomment : ∀ d ∈ (c :: comment ++ gap).head?, d = '#' := hcomment
      simpa using IsBody.intro hlead hhead hplain hlast htrail hcomment

theorem IsBody.comment (h : IsBody raw s) (text : List Char) : IsBody (raw ++ '#' :: text) s := by
  cases h with
  | @intro lead _ trail comment hlead hhead hplain hlast htrail hcomment =>
    have hcomment : ∀ d ∈ (comment ++ '#' :: text).head?, d = '#' := by
      cases comment with
      | nil =>
        rintro d ⟨⟩
        rfl
      | cons c comment => exact hcomment
    simpa using IsBody.intro hlead hhead hplain hlast htrail hcomment

end Statement

namespace Source

open Statement

variable {raw raw' : List Char}

theorem Padded.isBody (h : Padded raw raw') : IsBody raw' (body raw) := by
  induction h with
  | refl => exact isBody_body raw
  | lead hgap _ ih => exact ih.lead fun c hc => (hgap c hc).1
  | trail hgap _ ih => exact ih.trail fun c hc => (hgap c hc).1
  | comment _ _ ih => exact ih.comment _

theorem isBody_trimEnd (raw : List Char) : IsBody raw (body (trimEnd (· = '\r') raw)) := by
  obtain ⟨gap, hraw, -, hgap⟩ := exists_trimEnd (· = '\r') raw
  have hblank : ∀ c ∈ gap, isBlank c := by
    intro c hc
    obtain rfl : c = '\r' := by simpa using hgap c hc
    rfl
  have h := (isBody_body (trimEnd (· = '\r') raw)).trail hblank
  rwa [← hraw] at h

theorem parse_trimEnd (raw : List Char) : parse (trimEnd (· = '\r') raw) = parse raw :=
  parse_of_body_eq (isBody_trimEnd raw).eq_body

/-- What is added to a line is not read. -/
theorem Padded.parse_eq (h : Padded raw raw') :
    parse (trimEnd (· = '\r') raw') = parse (trimEnd (· = '\r') raw) := by
  rw [parse_trimEnd, parse_trimEnd]
  exact parse_of_body_eq h.isBody.eq_body.symm

end Source

/-! ## Moved lines -/

/-- The translation that keeps the names. -/
def Translation.moving (move : Int → Int) : Translation :=
  ⟨id, Function.injective_id, move⟩

variable {move : Int → Int}

theorem Translation.isToken_moving (token : String) : (moving move).IsToken token token :=
  isToken_self fun _ _ => rfl

theorem Statement.translates_moving (s : Statement) : s.Translates (.moving move) s := by
  cases s with
  | data name value => exact .data name value
  | label name => exact .label name
  | instruction mnemonic tokens =>
    exact .instruction mnemonic
      (List.forall₂_same.mpr fun token _ => Translation.isToken_moving token)

namespace Source

theorem translates_of_parse_eq {raw raw' : List Char}
    (h : Statement.parse raw' = Statement.parse raw) : Translates (.moving move) raw raw' := by
  cases hp : Statement.parse raw with
  | ok s? =>
    cases s? with
    | none => exact .blank hp (h.trans hp)
    | some s => exact .statement hp (h.trans hp) s.translates_moving
  | error fault =>
    apply Translates.fault hp
    rw [h, hp]
    cases fault with
    | cause c => exact congrArg (Except.error ∘ Fault.cause) c.rename_id.symm
    | defect d => rfl

theorem Relaid.translateFrom {n n' : Int} {raws raws' : List (List Char)}
    (h : Relaid move n raws n' raws') : TranslateFrom (.moving move) n raws n' raws' := by
  induction h with
  | nil n n' => exact .nil n n'
  | line hn h _ ih => exact .line hn (translates_of_parse_eq h.parse_eq) ih
  | blank h _ ih => exact .blank h.parse_eq ih

end Source

namespace Assembler

open Source

/--
Whether two results differ in the numbers of lines only, and in the text of the lines in their rows.
-/
structure Moves (move : Int → Int) (x x' : Result Failure) : Prop where
  passes : x'.2 = .ok () ↔ x.2 = .ok ()
  image : x.2 = .ok () → x'.1.image = x.1.image
  rows : Forall₂ (Row.Translates (.moving move)) x.1.rows.toList x'.1.rows.toList
  diagnostic : ∀ c p, x.2 = .error (.diagnostic ⟨c, p⟩) →
    x'.2 = .error (.diagnostic ⟨c, p.move move⟩)
  defect : ∀ d, x.2 = .error (.defect d) → x'.2 = .error (.defect d)
  warnings : x'.1.warnings = x.1.warnings.map fun w => { w with place := w.place.move move }

/--
A text with more white space around its lines, with more comments, and with blank lines between
them is assembled like the text itself: to the same image and listing if it is assembled at all, and
otherwise to the same failure on the line that has moved.
-/
theorem moves_of_relaid {text text' : String}
    (h : Relaid move 1 (lines text.toList) 1 (lines text'.toList)) (file : Option String) :
    Moves move ((new file).assemble text) ((new file).assemble text') := by
  have htranslates : TranslatesTo (.moving move) _ _ :=
    (translates_new file).assemble h.translateFrom
  constructor
  · exact htranslates.passes_iff
  · intro hok
    have himage := htranslates.image_of_assemble (Prod.ext rfl hok)
    rw [himage]
    exact congrArg (Image.mk _ _ _ _) (SymbolTable.rename_id _)
  · exact htranslates.assembler.rows
  · intro c p hc
    rw [htranslates.ending, hc]
    exact congrArg (fun c => Except.error (Failure.diagnostic ⟨c, _⟩)) c.rename_id
  · intro d hd
    rw [htranslates.ending, hd]
    rfl
  · exact htranslates.assembler.warnings

/-- A text with a comment and an empty line in it, indented and with carriage returns. -/
theorem moves_of_relaid_loop :
    let text := "x:\njmp x"
    let text' := "# loop\n x:\r\n\n\tjmp x # again\r"
    let move := fun n : Int => 2 * n
    Relaid move 1 (lines text.toList) 1 (lines text'.toList) ∧
      Moves move ((new none).assemble text) ((new none).assemble text') := by
  intro text text' move
  have hlines : lines text.toList = ["x:".toList, "jmp x".toList] := by decide +kernel
  have hlines' : lines text'.toList =
      ["# loop".toList, " x:\r".toList, [], "\tjmp x # again\r".toList] := by
    decide +kernel
  have hrelaid : Relaid move 1 (lines text.toList) 1 (lines text'.toList) := by
    have hspace : ∀ c ∈ [' '], isBlank c ∧ c ≠ '\n' :=
      List.forall_mem_singleton.mpr ⟨rfl, by decide⟩
    have htab : ∀ c ∈ ['\t'], isBlank c ∧ c ≠ '\n' :=
      List.forall_mem_singleton.mpr ⟨rfl, by decide⟩
    have hreturn : ∀ c ∈ ['\r'], isBlank c ∧ c ≠ '\n' :=
      List.forall_mem_singleton.mpr ⟨rfl, by decide⟩
    have htop : Padded [] "# loop".toList := @Padded.comment [] " loop".toList [] (by decide) .refl
    have hlabel : Padded "x:".toList " x:\r".toList := .lead hspace (.trail hreturn .refl)
    have hjump : Padded "jmp x".toList "\tjmp x # again\r".toList :=
      .lead htab (@Padded.comment _ " again\r".toList _ (by decide) (.trail hspace .refl))
    rw [hlines, hlines']
    exact .blank htop (.line rfl hlabel (.blank .refl (.line rfl hjump (.nil _ _))))
  exact ⟨hrelaid, moves_of_relaid hrelaid none⟩

end Assembler

end Nibble
