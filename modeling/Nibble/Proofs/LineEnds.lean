import Nibble.Proofs.Arguments
import Nibble.Proofs.Coupling
import Nibble.Proofs.Decoding

/-! # Line ends

A file and the standard input are read in different ways: in a file a carriage return ends a line,
with or without a line feed after it, and in the standard input only a line feed does. A file is
assembled like an input with line feeds in the place of these ends, and so like an input with the
same bytes if a line feed follows every carriage return.
-/

namespace Nibble

open Text

namespace Text

variable {p : Char → Bool} {s t : List Char}

theorem trimEnd_cons (p : Char → Bool) (c : Char) (s : List Char) :
    trimEnd p (c :: s) = if trimEnd p s = [] then trimEnd p [c] else c :: trimEnd p s := by
  unfold trimEnd
  rw [List.reverse_cons, List.dropWhile_append]
  by_cases h : s.reverse.dropWhile p = [] <;> simp [h]

/-- Whether a line feed follows every carriage return. -/
def Paired (s : List Char) : Prop :=
  ∀ before after, s = before ++ '\r' :: after → after.head? = some '\n'

theorem Paired.of_cons {c : Char} (h : Paired (c :: s)) : Paired s := by
  rintro before after rfl
  exact h (c :: before) after rfl

theorem lines_cons (c : Char) (s : List Char) :
    lines (c :: s) = if c = '\n' then [] :: lines s else (lines s).modifyHead (c :: ·) := by
  simp [lines, List.splitOn_cons_eq_if_modifyHead]

theorem map_trimEnd_modifyHead {ls ls' : List (List Char)} (c : Char)
    (h : ls.map (trimEnd p) = ls'.map (trimEnd p)) :
    (ls.modifyHead (c :: ·)).map (trimEnd p) = (ls'.modifyHead (c :: ·)).map (trimEnd p) := by
  cases ls with
  | nil =>
    obtain rfl := List.map_eq_nil_iff.mp h.symm
    rfl
  | cons l ls =>
    cases ls' with
    | nil => cases h
    | cons l' ls' =>
      obtain ⟨hl, hls⟩ := List.cons.inj h
      rw [List.modifyHead_cons, List.modifyHead_cons, List.map_cons, List.map_cons,
        trimEnd_cons p c l, trimEnd_cons p c l', hl, hls]

/-- Unified line ends make no difference to the lines without a carriage return at their end. -/
theorem Paired.lines_unifyLineEnds (h : Paired s) :
    (lines (unifyLineEnds s)).map (trimEnd (· = '\r')) = (lines s).map (trimEnd (· = '\r')) := by
  induction s using unifyLineEnds.induct with
  | case1 rest ih =>
    rw [unifyLineEnds, lines_cons, if_pos rfl, lines_cons, if_neg (by decide), lines_cons,
      if_pos rfl, List.map_cons, ih h.of_cons.of_cons]
    rfl
  | case2 rest hne ih =>
    have hrest := h [] rest rfl
    obtain ⟨rest, rfl⟩ := List.head?_eq_some_iff.mp hrest
    exact absurd rfl (hne rest)
  | case3 c rest hne hne' ih =>
    have ih := ih h.of_cons
    rw [unifyLineEnds, lines_cons, lines_cons]
    · split
      · rw [List.map_cons, List.map_cons, ih]
      · exact map_trimEnd_modifyHead c ih
    · exact hne
    · exact hne'
  | case4 => rfl

end Text

namespace Source

theorem numbered_of_map_eq {raws raws' : List (List Char)} (n : Int)
    (h : raws.map (trimEnd (· = '\r')) = raws'.map (trimEnd (· = '\r'))) :
    numbered n raws = numbered n raws' := by
  induction raws generalizing raws' n with
  | nil =>
    obtain rfl := List.map_eq_nil_iff.mp h.symm
    rfl
  | cons raw raws ih =>
    cases raws' with
    | nil => cases h
    | cons raw' raws' =>
      obtain ⟨hraw, hraws⟩ := List.cons.inj h
      rw [numbered, numbered, hraw, ih (n + 1) hraws]

theorem ofText_unifyLineEnds {s : List Char} (h : Paired s) :
    ofText (String.ofList (unifyLineEnds s)) = ofText (String.ofList s) := by
  rw [ofText, ofText, String.toList_ofList, String.toList_ofList]
  exact numbered_of_map_eq 1 h.lines_unifyLineEnds

end Source

namespace Assembler

open Source

theorem addLines_of_numbered_eq {a : Assembler} {raws raws' : List (List Char)} {n : Int}
    (h : numbered n raws = numbered n raws') : a.addLines n raws = a.addLines n raws' := by
  induction raws generalizing raws' a n with
  | nil =>
    cases raws' with
    | nil => rfl
    | cons raw' raws' => cases h
  | cons raw raws ih =>
    cases raws' with
    | nil => cases h
    | cons raw' raws' =>
      rw [numbered, numbered] at h
      obtain ⟨hraw, hraws⟩ := List.cons.inj h
      rw [addLines, addLines, (Prod.mk.inj hraw).2]
      split
      · exact ih hraws
      · rfl

theorem assemble_of_ofText_eq {a : Assembler} {text text' : String}
    (h : ofText text = ofText text') : a.assemble text = a.assemble text' := by
  rw [assemble, assemble, addLines_of_numbered_eq h]

end Assembler

namespace Shell.Assemble

open Session

variable {edition : Edition} {session : Session} {options options' : Options}
  {args args' : List String} {bytes : List UInt8} {chars : List Char}

theorem run_start_of_decode (hr : session.source options.input = .ok bytes)
    (hd : Utf8.decode bytes = .ok chars) : (start host options).run session =
      (assemble host options (sourceText options.input chars)).run session := by
  rw [start, run_readSource_bind, hr]
  simp only [hd]

/-- Whether a run on a file and another run on the standard input end in the same way: with the
same value, the same output and the same remarks, and with the same files but for the name of the
source in a listing. -/
structure EndAlike (options : Options) (session : Session) (ended ended' : Exit × Session) :
    Prop where
  exit : ended'.1 = ended.1
  alike : Alike session.complaints options.input "<stdin>"
    (Folder.AlikeBut options.listing options.input "<stdin>") ended.2 ended'.2

theorem endAlike_of_assemble_eq (h : options? edition args = some options)
    (h' : options? edition args' = some { options with input := "-" }) (hfile : options.input ≠ "-")
    {chars' : List Char} {input : List UInt8}
    (hr : session.folder.read options.input = .ok bytes) (hd : Utf8.decode bytes = .ok chars)
    (hd' : Utf8.decode input = .ok chars')
    (ha : ∀ a : Assembler, a.assemble (String.ofList (unifyLineEnds chars)) =
      a.assemble (String.ofList chars')) :
    EndAlike options session ((run host args edition).run session)
      ((run host args' edition).run { session with input }) := by
  have hs : session.source options.input = .ok bytes := by rw [source, if_neg hfile, hr]
  have hs' : source { session with input } "-" = .ok input := rfl
  have htext : sourceText options.input chars = String.ofList (unifyLineEnds chars) := by
    rw [sourceText, if_neg hfile]
  have htext' : assemble host { options with input := "-" } (sourceText "-" chars') =
      assemble host { options with input := "-" } (String.ofList (unifyLineEnds chars)) := by
    rw [sourceText, if_pos rfl, assemble, assemble, ha]
  rw [run_of_options? host h, run_of_options? host h', run_start_of_decode hs hd, htext,
    run_start_of_decode hs' hd', htext']
  have hstart : Alike session.complaints options.input "<stdin>" Eq session
      { session with input } :=
    ⟨rfl, ⟨[], (String.append_empty).symm, (String.append_empty).symm⟩, rfl⟩
  have hcoupled := @coupled_assemble session.complaints options.input "<stdin>" options
    { options with input := "-" } rfl rfl (if_neg hfile) rfl
  obtain ⟨exit, ended, ended', hended, hended', halike⟩ := hcoupled _ _ _ hstart
  rw [hended, hended']
  exact ⟨rfl, halike⟩

/--
A source in a file is assembled like an input with line feeds in the place of the carriage returns
that end its lines. It is assembled like an input with the same bytes, and read as the same lines,
if a line feed follows every carriage return.
-/
theorem endAlike_of_run_file_and_input (h : options? edition args = some options)
    (h' : options? edition args' = some { options with input := "-" }) (hfile : options.input ≠ "-")
    (hr : session.folder.read options.input = .ok bytes) (hd : Utf8.decode bytes = .ok chars) :
    EndAlike options session ((run host args edition).run session) ((run host args' edition).run
        { session with input := Utf8.encode (String.ofList (unifyLineEnds chars)) }) ∧
      (Paired chars →
        Source.ofText (sourceText options.input chars) = Source.ofText (sourceText "-" chars) ∧
        EndAlike options session ((run host args edition).run session)
          ((run host args' edition).run { session with input := bytes })) := by
  have hunified := Utf8.decode_encode (String.ofList (unifyLineEnds chars))
  rw [String.toList_ofList] at hunified
  constructor
  · exact endAlike_of_assemble_eq h h' hfile hr hd hunified fun _ => rfl
  · intro hpaired
    have hlines := Source.ofText_unifyLineEnds hpaired
    constructor
    · rw [sourceText, if_neg hfile, sourceText, if_pos rfl, hlines]
    · apply endAlike_of_assemble_eq h h' hfile hr hd hd
      intro a
      exact Assembler.assemble_of_ofText_eq hlines

/-- A line that ends with a carriage return and a line feed. -/
theorem endAlike_of_run_file_and_input_crlf :
    let bytes := Utf8.encode "halt\r\n"
    let chars := ['h', 'a', 'l', 't', '\r', '\n']
    let session : Session := ⟨Folder.empty.addEntry "a.s" bytes, [], "", ""⟩
    let options : Options := ⟨"a.s", some "out.4", ""⟩
    options? .current ["a.s"] = some options ∧
      options? .current ["-"] = some { options with input := "-" } ∧
      options.input ≠ "-" ∧ session.folder.read options.input = .ok bytes ∧
      Utf8.decode bytes = .ok chars ∧ Paired chars ∧
      EndAlike options session ((run host ["a.s"] .current).run session)
        ((run host ["-"] .current).run
        { session with input := Utf8.encode (String.ofList (unifyLineEnds chars)) }) ∧
      Source.ofText (sourceText options.input chars) = Source.ofText (sourceText "-" chars) ∧
      EndAlike options session ((run host ["a.s"] .current).run session)
        ((run host ["-"] .current).run { session with input := bytes }) := by
  intro bytes chars session options
  have h : options? .current ["a.s"] = some options := by decide +kernel
  have h' : options? .current ["-"] = some { options with input := "-" } := by decide +kernel
  have hfile : options.input ≠ "-" := by decide
  have hr : session.folder.read options.input = .ok bytes := by decide +kernel
  have hd : Utf8.decode bytes = .ok chars := by decide +kernel
  have hpaired : Paired chars := by
    intro before after he
    have hlast : before = ['h', 'a', 'l', 't'] ∧ after = ['\n'] := by
      simpa [chars, List.cons_eq_append_iff] using he
    rw [hlast.2]
    rfl
  have hall := endAlike_of_run_file_and_input h h' hfile hr hd
  exact ⟨h, h', hfile, hr, hd, hpaired, hall.1, hall.2 hpaired⟩

/-- A carriage return between two instructions, which ends a line in a file only. -/
theorem not_endAlike_of_run_return : ¬ ∃ edition : Edition, ∀ (session : Session)
    (args args' : List String) (options : Options) (bytes : List UInt8) (chars : List Char),
      options? edition args = some options →
      options? edition args' = some { options with input := "-" } → options.input ≠ "-" →
      session.folder.read options.input = .ok bytes → Utf8.decode bytes = .ok chars →
        EndAlike options session ((run host args edition).run session)
          ((run host args' edition).run { session with input := bytes }) := by
  rintro ⟨edition, h⟩
  let bytes := Utf8.encode "halt\rhalt"
  let session : Session := ⟨Folder.empty.addEntry "a.s" bytes, [], "", ""⟩
  have hfile : ((run host ["a.s"] edition).run session).1 = .status 0 := by
    cases edition <;> decide +kernel
  have hinput : ((run host ["-"] edition).run { session with input := bytes }).1 = .status 1 := by
    cases edition <;> decide +kernel
  have halike := h session ["a.s"] ["-"] ⟨"a.s", some "out.4", ""⟩ bytes "halt\rhalt".toList
    (by cases edition <;> decide +kernel) (by cases edition <;> decide +kernel) (by decide)
    (by decide +kernel) (by decide +kernel)
  have hexit := halike.exit
  rw [hfile, hinput] at hexit
  cases hexit

end Shell.Assemble

end Nibble
