import Nibble.Proofs.Naming

/-! # Diagnosis

A text that is not assembled fails with a diagnostic on one of its lines, up to two kinds of lines
that are not diagnosed: those with separators only, and those on which a numeral has more digits
than are read.
-/

namespace Nibble

open Text

open List (Forall₂)

/-! ## Reading -/

namespace Statement

variable {raw s : List Char} {d : Defect}

theorem parseData_eq_defect_iff : parseData s = .error (.defect d) ↔
    d = .numeralTooLong ∧
      ∃ name digits, dataFields? s = some (name, digits) ∧ maxDigits < digits.length := by
  unfold parseData
  cases hf : dataFields? s with
  | none => simp
  | some fields =>
    obtain ⟨name, digits⟩ := fields
    simp only [Option.some.injEq, Prod.mk.injEq, ← numeralValue?_eq_none_iff]
    cases hv : numeralValue? digits with
    | none => simp [hv, eq_comm]
    | some value =>
      simp only
      split <;> simp [hv]

theorem parseInstruction_eq_defect_iff : parseInstruction s = .error (.defect d) ↔
    d = .noMnemonic ∧ ∀ c ∈ s, isSeparator c = true := by
  have hruns : runs (fun c => !isSeparator c) s = [] ↔ ∀ c ∈ s, isSeparator c = true := by
    simp [runs_eq_nil_iff]
  rw [← hruns]
  unfold parseInstruction
  split
  next h => simp [h, eq_comm]
  next h => simp [h]

theorem colon_mem_of_labelName? {name : List Char} (h : labelName? s = some name) : ':' ∈ s := by
  unfold labelName? at h
  split at h
  next hc =>
    simp only [Bool.and_eq_true, decide_eq_true_eq] at hc
    exact List.mem_of_getLast? hc.1
  next => cases h

theorem parse_eq_defect_iff : parse raw = .error (.defect d) ↔
    (d = .noMnemonic ∧ body raw ≠ [] ∧ ∀ c ∈ body raw, isSeparator c = true) ∨
    (d = .numeralTooLong ∧
      ∃ name digits, dataFields? (body raw) = some (name, digits) ∧ maxDigits < digits.length) := by
  unfold parse
  split
  next h => simp [h, dataFields?]
  next rest h =>
    rw [map_eq_error_iff, parseData_eq_defect_iff, h]
    have hdot : isSeparator '.' = false := by decide
    simp [hdot]
  next hnil hdot =>
    have hfields : dataFields? (body raw) = none := by
      unfold dataFields?
      split
      next h => exact absurd h (hdot _)
      next => rfl
    split
    next name hl =>
      have hcolon : ¬ ∀ c ∈ body raw, isSeparator c = true := fun hall =>
        absurd (hall ':' (colon_mem_of_labelName? hl)) (by decide)
      simp [hfields, hcolon]
    next =>
      have hbody : body raw ≠ [] := fun h => hnil h
      rw [map_eq_error_iff, parseInstruction_eq_defect_iff]
      simp [hfields, hbody]

end Statement

namespace Operand

theorem register?_of_numeral? {token digits : List Char} (h : numeral? token = some digits) :
    register? token = none := by
  unfold numeral? at h
  split at h
  next => simp [register?]
  next => cases h

def TooLong (token : String) : Prop :=
  ∃ digits, numeral? token.toList = some digits ∧ maxDigits < digits.length

theorem parse_eq_defect_iff {token : String} {line : Option Int} {d : Defect} :
    parse token line = .error (.defect d) ↔ d = .numeralTooLong ∧ TooLong token := by
  unfold parse TooLong
  split
  next r hr =>
    simp only [reduceCtorEq, false_iff, not_and, not_exists]
    intro _ digits hd
    rw [register?_of_numeral? hd] at hr
    cases hr
  next =>
    split
    next digits hd =>
      simp only [hd, Option.some.injEq, ← numeralValue?_eq_none_iff]
      split
      next hv => simp [hv, eq_comm]
      next value hv =>
        split <;> simp [hv]
    next hd =>
      split <;> simp [hd]

theorem expect_ne_defect {op : Operand} {accepted : List OperandClass} {mnemonic : String}
    {d : Defect} : op.expect accepted mnemonic ≠ .error (.defect d) := by
  unfold expect
  split <;> simp

end Operand

def Term.Reads (token : String) (accepted : List OperandClass) : Prop :=
  ∃ t, ofToken? token = some t ∧ t.Fits accepted

namespace Instruction

/-- Whether the first token that is not read and accepted is a number that is too long. -/
def Overlong : List String → List (List OperandClass) → Prop
  | token :: tokens, accepted :: shape =>
    Operand.TooLong token ∨ (Term.Reads token accepted ∧ Overlong tokens shape)
  | _, _ => False

variable {mnemonic : String} {tokens : List String} {line : Option Int} {d : Defect}

theorem operands_eq_defect_iff {shape : List (List OperandClass)} :
    operands mnemonic line tokens shape = .error (.defect d) ↔
      d = .numeralTooLong ∧ Overlong tokens shape := by
  induction tokens generalizing shape with
  | nil => simp [operands, Overlong, pure, Except.pure]
  | cons token tokens ih =>
    cases shape with
    | nil => simp [operands, Overlong, pure, Except.pure]
    | cons accepted shape =>
      rw [operands_cons_eq_error_iff, Operand.parse_eq_defect_iff, ih, Overlong]
      constructor
      · rintro (⟨rfl, hlong⟩ | ⟨t, ht, he | ⟨hfit, rfl, hrest⟩⟩)
        · exact ⟨rfl, .inl hlong⟩
        · exact absurd he Operand.expect_ne_defect
        · exact ⟨rfl, .inr ⟨⟨t, ht, hfit⟩, hrest⟩⟩
      · rintro ⟨rfl, hlong | ⟨⟨t, ht, hfit⟩, hrest⟩⟩
        · exact .inl ⟨rfl, hlong⟩
        · exact .inr ⟨t, ht, .inr ⟨hfit, rfl, hrest⟩⟩

theorem encode_eq_defect_iff {address : Int} :
    encode mnemonic tokens address line = .error (.defect d) ↔ d = .numeralTooLong ∧
      ∃ entry, find? mnemonic = some entry ∧ tokens.length = entry.format.shape.length ∧
        Overlong tokens entry.format.shape := by
  rw [encode_eq_error_iff]
  constructor
  · rintro (⟨-, ⟨⟩⟩ | ⟨entry, hfind, ⟨-, ⟨⟩⟩ | ⟨hlen, hops | ⟨-, ⟨⟩, -⟩⟩⟩)
    obtain ⟨rfl, hlong⟩ := operands_eq_defect_iff.mp hops
    exact ⟨rfl, entry, hfind, hlen, hlong⟩
  · rintro ⟨rfl, entry, hfind, hlen, hlong⟩
    right
    exact ⟨entry, hfind, .inr ⟨hlen, .inl (operands_eq_defect_iff.mpr ⟨rfl, hlong⟩)⟩⟩

end Instruction

namespace Source

/-- The lines that fail without a diagnosis, with the defect. -/
inductive Undiagnosed (raw : List Char) : Defect → Prop
  /-- There is nothing but separators. -/
  | separators (hne : Statement.body raw ≠ [])
    (h : ∀ c ∈ Statement.body raw, Statement.isSeparator c = true) : Undiagnosed raw .noMnemonic
  /-- The value of data has too many digits. -/
  | data {name digits : List Char}
    (h : Statement.dataFields? (Statement.body raw) = some (name, digits))
    (hlong : maxDigits < digits.length) : Undiagnosed raw .numeralTooLong
  /-- An operand has too many digits, in an instruction that is known, with as many as it takes. -/
  | operand {mnemonic : String} {tokens : List String} {entry : Instruction}
    (hs : statement? raw = some (.instruction mnemonic tokens))
    (he : Instruction.find? mnemonic = some entry)
    (hl : tokens.length = entry.format.shape.length)
    (hlong : Instruction.Overlong tokens entry.format.shape) : Undiagnosed raw .numeralTooLong

theorem undiagnosed_iff {raw : List Char} {d : Defect} (address : Int) (line : Option Int) :
    Undiagnosed raw d ↔ Statement.parse raw = .error (.defect d) ∨
      ∃ mnemonic tokens, statement? raw = some (.instruction mnemonic tokens) ∧
        Instruction.encode mnemonic tokens address line = .error (.defect d) := by
  simp only [Statement.parse_eq_defect_iff, Instruction.encode_eq_defect_iff]
  constructor
  · intro h
    cases h with
    | separators hne h => exact .inl (.inl ⟨rfl, hne, h⟩)
    | data h hlong => exact .inl (.inr ⟨rfl, _, _, h, hlong⟩)
    | operand hs he hl hlong => exact .inr ⟨_, _, hs, rfl, _, he, hl, hlong⟩
  · rintro ((⟨rfl, hne, h⟩ | ⟨rfl, _, _, h, hlong⟩) | ⟨_, _, hs, rfl, _, he, hl, hlong⟩)
    · exact .separators hne h
    · exact .data h hlong
    · exact .operand hs he hl hlong

end Source

/-! ## Lines of references -/

theorem Command.line_of_symbol_mem_cells {c : Command Argument} {address : Int}
    {line : Option Int} {r : Reference} (h : .symbol r ∈ c.cells address line) : r.line = line := by
  have harg : ∀ x : Argument, .symbol r = x.cell line → r.line = line := by
    rintro (n | name) hx
    · cases hx
    · cases hx
      rfl
  rcases List.mem_cons.mp h with h | h
  · cases h
  · cases c with
    | print x | load x _ | store _ x | jump _ x => exact harg x (List.mem_singleton.mp h)
    | printRegister r => simp [map, rest] at h
    | _ => cases h

theorem Layout.line_of_symbol_mem_code {l : Layout} {items : List (Option Int × Item)}
    {r : Reference} (h : .symbol r ∈ (l.addAll items).code) :
    .symbol r ∈ l.code ∨ ∃ x ∈ items, x.1 = r.line := by
  induction items generalizing l with
  | nil => exact .inl h
  | cons x items ih =>
    rcases ih h with h | ⟨y, hy, hline⟩
    · obtain ⟨line, item⟩ := x
      cases item with
      | command c =>
        rcases List.mem_append.mp h with h | h
        · exact .inl h
        · exact .inr ⟨_, .head _, (Command.line_of_symbol_mem_cells h).symm⟩
      | _ => exact .inl h
    · exact .inr ⟨y, .tail _ hy, hline⟩

namespace Source

theorem exists_of_mem_numbered {start : Int} {raws : List (List Char)}
    {x : Option Int × List Char} (h : x ∈ numbered start raws) :
    ∃ (k : Nat) (raw : List Char), raws[k]? = some raw ∧
      x = (some (start + (k : Int)), trimEnd (· = '\r') raw) := by
  induction raws generalizing start with
  | nil => cases h
  | cons raw raws ih =>
    rcases List.mem_cons.mp h with rfl | h
    · exact ⟨0, raw, rfl, by rw [Int.natCast_zero, Int.add_zero]⟩
    · obtain ⟨k, raw', hk, hx⟩ := ih h
      refine ⟨k + 1, raw', hk, ?_⟩
      rw [hx, Int.natCast_succ, Int.add_assoc, Int.add_comm 1]

end Source

namespace Assembler

open Source

variable {a a' b : Assembler} {l : Layout} {s : Statement} {source : String} {line : Option Int}
  {raw : List Char} {failure : Failure} {n : Int} {raws : List (List Char)} {text : String}
  {file : Option String}

theorem Holds.enter_eq_error (h : a.Holds l) (he : a.enter source line s = (a', .error failure)) :
    (∃ c, failure = .diagnostic ⟨c, .unknown⟩) ∨
      ∃ mnemonic tokens fault, s = .instruction mnemonic tokens ∧
        Instruction.encode mnemonic tokens a.image.codeCursor line = .error fault ∧
        failure = fault.placed ⟨a.file, line⟩ := by
  have hframed : a.image.Framed := h.image ▸ Layout.framed h.fits.size
  cases s with
  | data name value =>
    simp only [Assembler.enter] at he
    split at he
    next fault hi =>
      cases he
      obtain rfl := hframed.insertData_eq_error hi
      exact .inl ⟨_, rfl⟩
    next => exact .inl (record_eq_error he).2
  | label name => exact .inl (record_eq_error he).2
  | instruction mnemonic tokens =>
    simp only [Assembler.enter] at he
    split at he
    next fault hx =>
      cases he
      exact .inr ⟨mnemonic, tokens, fault, rfl, hx, rfl⟩
    next cells hx =>
      split at he
      next image fault hi =>
        cases he
        obtain ⟨rfl, -⟩ := hframed.insertCells_eq_error hi
        exact .inl ⟨_, rfl⟩
      next => exact .inl (record_eq_error he).2

/-- A line fails without a place for the image, or because it cannot be read or encoded. -/
theorem Holds.addLine_eq_error (h : a.Holds l) (he : a.addLine raw line = (a', .error failure)) :
    (∃ c, failure = .diagnostic ⟨c, .unknown⟩) ∨
      ∃ fault, failure = fault.placed ⟨a.file, line⟩ ∧ (Statement.parse raw = .error fault ∨
        ∃ mnemonic tokens, statement? raw = some (.instruction mnemonic tokens) ∧
          Instruction.encode mnemonic tokens a.image.codeCursor line = .error fault) := by
  cases hp : Statement.parse raw with
  | error fault =>
    rw [Assembler.addLine, hp] at he
    cases he
    exact .inr ⟨fault, rfl, .inl rfl⟩
  | ok s? =>
    cases s? with
    | none =>
      rw [addLine_of_blank hp] at he
      cases he
    | some s =>
      have hs := statement?_eq_some_iff.mpr hp
      rw [addLine_of_statement hs] at he
      rcases h.enter_eq_error he with hc | ⟨mnemonic, tokens, fault, rfl, hx, hf⟩
      · exact .inl hc
      · exact .inr ⟨fault, hf, .inr ⟨mnemonic, tokens, hs, hx⟩⟩

theorem Holds.addLine_eq_defect_iff (h : a.Holds l) (line : Option Int) {d : Defect} :
    (a.addLine raw line).2 = .error (.defect d) ↔ Undiagnosed raw d := by
  rw [undiagnosed_iff a.image.codeCursor line]
  constructor
  · intro he
    rcases h.addLine_eq_error (Prod.ext rfl he) with ⟨c, hc⟩ | ⟨fault, hf, hcases⟩
    · cases hc
    · cases fault with
      | cause c => cases hf
      | defect d' =>
        cases hf
        exact hcases
  · rintro (hp | ⟨mnemonic, tokens, hs, hx⟩)
    · rw [Assembler.addLine, hp]
      rfl
    · rw [addLine_of_statement hs]
      simp only [Assembler.enter, hx]
      rfl

theorem add_one_add_length (n : Int) (raw : List Char) (raws : List (List Char)) :
    n + 1 + (raws.length : Int) = n + (raw :: raws).length := by
  rw [List.length_cons]
  omega

theorem addLines_append (h : a.addLines n raws = (b, .ok ())) (rest : List (List Char)) :
    a.addLines n (raws ++ rest) = b.addLines (n + raws.length) rest := by
  induction raws generalizing a n with
  | nil =>
    cases h
    exact congrArg (b.addLines · rest) (Int.add_zero n).symm
  | cons raw raws ih =>
    rw [addLines] at h
    rw [List.cons_append, addLines]
    split at h
    next c _ =>
      rw [← add_one_add_length]
      exact ih h
    next => cases h

theorem addLines_eq_error_iff : a.addLines n raws = (a', .error failure) ↔
    ∃ before raw after b failure', raws = before ++ raw :: after ∧
      a.addLines n before = (b, .ok ()) ∧
      b.addLine (trimEnd (· = '\r') raw) (some (n + before.length)) = (a', .error failure') ∧
      failure = a'.locate (n + before.length) failure' := by
  constructor
  · intro h
    induction raws generalizing a n with
    | nil => cases h
    | cons raw raws ih =>
      rw [addLines] at h
      split at h
      next b hb =>
        obtain ⟨before, raw', after, c, failure', rfl, hbefore, he, hf⟩ := ih h
        rw [add_one_add_length n raw] at he hf
        refine ⟨raw :: before, raw', after, c, failure', rfl, ?_, he, hf⟩
        rw [addLines, hb]
        exact hbefore
      next b failure' hb =>
        cases h
        have hn : n + (([] : List (List Char)).length : Int) = n := Int.add_zero n
        exact ⟨[], raw, raws, a, failure', rfl, rfl, by rw [hn]; exact hb, by rw [hn]⟩
  · rintro ⟨before, raw, after, b, failure', rfl, hbefore, he, rfl⟩
    rw [addLines_append hbefore, addLines, he]

/-- A text fails as its first failing line does, or for a reference to a name that is not bound. -/
theorem assemble_eq_error_iff : (a.assemble text).2 = .error failure ↔
    (a.addLines 1 (Text.lines text.toList)).2 = .error failure ∨
      ∃ b r, a.addLines 1 (Text.lines text.toList) = (b, .ok ()) ∧ b.image.resolve = .error r ∧
        failure = r.undefined b.file := by
  rcases h : a.addLines 1 (Text.lines text.toList) with ⟨b, failure' | ⟨⟩⟩
  · simp [assemble, h]
  · rw [assemble_of_addLines h, resolve]
    cases hr : b.image.resolve with
    | ok image => simp [hr, Except.mapError]
    | error r => simp [hr, Except.mapError, eq_comm]

theorem holds_of_addLines (h : (new file).addLines 1 raws = (b, .ok ())) :
    b.Holds (.addAll .empty (items (numbered 1 raws))) ∧ b.file = file :=
  (holds_new file).of_feed (addLines_eq_ok_iff.mp h)

theorem located_of_addLines {d : Diagnostic}
    (h : (new file).addLines 1 raws = (a', .error (.diagnostic d))) :
    d.place.file = file ∧ ∃ n : Nat, d.place.line = some (n : Int) ∧ 1 ≤ n ∧ n ≤ raws.length := by
  obtain ⟨before, raw, after, b, failure, rfl, hbefore, he, hf⟩ := addLines_eq_error_iff.mp h
  obtain ⟨hb, hfile⟩ := holds_of_addLines hbefore
  have hfile' : a'.file = file := by
    have hsame := file_addLine b (trimEnd (· = '\r') raw) (some (1 + before.length))
    rw [he] at hsame
    exact hsame.trans hfile
  -- what the image reports has no line of its own and gets that of the failing line as well
  have hplace : d.place = ⟨file, some (1 + before.length)⟩ := by
    rcases hb.addLine_eq_error he with ⟨c, rfl⟩ | ⟨fault, rfl, -⟩
    · cases hf
      rw [hfile']
      rfl
    · cases fault with
      | defect => cases hf
      | cause c =>
        cases hf
        rw [hfile']
        rfl
  rw [hplace]
  refine ⟨rfl, 1 + before.length, by simp, by omega, ?_⟩
  rw [List.length_append, List.length_cons]
  omega

theorem located_of_resolve {r : Reference} (hb : (new file).addLines 1 raws = (b, .ok ()))
    (hr : b.image.resolve = .error r) :
    ∃ n : Nat, r.line = some (n : Int) ∧ 1 ≤ n ∧ n ≤ raws.length := by
  have hholds := (holds_of_addLines hb).1
  obtain ⟨hmem, -⟩ := Image.mem_of_resolve_eq_error hr
  rw [hholds.image] at hmem
  have hcode := Layout.symbol_mem_code hmem
  rcases Layout.line_of_symbol_mem_code hcode with h | ⟨x, hx, hline⟩
  · cases h
  · obtain ⟨y, hy, hxy⟩ := List.mem_filterMap.mp hx
    obtain ⟨item, -, rfl⟩ := Option.map_eq_some_iff.mp hxy
    obtain ⟨k, raw, hk, hyk⟩ := exists_of_mem_numbered hy
    refine ⟨k + 1, ?_, by omega, (List.getElem?_eq_some_iff.mp hk).1⟩
    rw [← hline, hyk]
    exact congrArg some (Int.add_comm 1 k)

/--
However a text fails, it is with a diagnostic on one of its lines, or else at the first line that
fails and is not diagnosed.
-/
theorem located_or_undiagnosed_of_assemble (file : Option String) (text : String) :
    (∀ d, ((new file).assemble text).2 = .error (.diagnostic d) → d.place.file = file ∧
      ∃ n : Nat, d.place.line = some (n : Int) ∧ 1 ≤ n ∧ n ≤ (Text.lines text.toList).length) ∧
    ∀ d, ((new file).assemble text).2 = .error (.defect d) ↔
      ∃ before raw after, Text.lines text.toList = before ++ raw :: after ∧
        ((new file).addLines 1 before).2 = .ok () ∧
        Undiagnosed (trimEnd (· = '\r') raw) d := by
  constructor
  · intro d h
    rcases assemble_eq_error_iff.mp h with h | ⟨b, r, hb, hr, hd⟩
    · exact located_of_addLines (Prod.ext rfl h)
    · cases hd
      exact ⟨(holds_of_addLines hb).2, located_of_resolve hb hr⟩
  · intro d
    have hlines : ((new file).assemble text).2 = .error (.defect d) ↔
        ((new file).addLines 1 (Text.lines text.toList)).2 = .error (.defect d) := by
      rw [assemble_eq_error_iff, or_iff_left]
      rintro ⟨b, r, -, -, hd⟩
      cases hd
    rw [hlines]
    constructor
    · intro h
      obtain ⟨before, raw, after, b, failure, hraws, hbefore, he, hf⟩ :=
        addLines_eq_error_iff.mp (Prod.ext rfl h)
      have hdefect : failure = .defect d := by
        cases failure with
        | diagnostic d' => cases hf
        | defect d' =>
          cases hf
          rfl
      refine ⟨before, raw, after, hraws, congrArg Prod.snd hbefore, ?_⟩
      rw [← (holds_of_addLines hbefore).1.addLine_eq_defect_iff (some (1 + before.length)), he,
        hdefect]
    · rintro ⟨before, raw, after, hraws, hbefore, hd⟩
      have hbefore : (new file).addLines 1 before = (_, .ok ()) := Prod.ext rfl hbefore
      have he := ((holds_of_addLines hbefore).1.addLine_eq_defect_iff
        (some (1 + before.length))).mpr hd
      have herror := addLines_eq_error_iff.mpr
        ⟨before, raw, after, _, _, hraws, hbefore, Prod.ext rfl he, rfl⟩
      exact congrArg Prod.snd herror

/-- A line may pass and a later one refer to a name that is not bound, or have separators only. -/
theorem located_or_undiagnosed_of_assemble_second_line :
    (∃ d, ((new none).assemble "halt\njmp x").2 = .error (.diagnostic d) ∧ d.place.file = none ∧
      ∃ n : Nat, d.place.line = some (n : Int) ∧ 1 ≤ n ∧
        n ≤ (Text.lines "halt\njmp x".toList).length) ∧
    ∃ before raw after, Text.lines "halt\n,".toList = before ++ raw :: after ∧
      ((new none).addLines 1 before).2 = .ok () ∧
      Undiagnosed (trimEnd (· = '\r') raw) .noMnemonic := by
  have hdiagnostic : ((new none).assemble "halt\njmp x").2 =
      .error (.diagnostic ⟨.undefinedSymbol "x", ⟨none, some 2⟩⟩) := by rfl
  have hdefect : ((new none).assemble "halt\n,").2 = .error (.defect .noMnemonic) := by rfl
  exact ⟨⟨_, hdiagnostic, (located_or_undiagnosed_of_assemble none _).1 _ hdiagnostic⟩,
    ((located_or_undiagnosed_of_assemble none _).2 _).mp hdefect⟩

/-- A comma alone is no statement, and it is not diagnosed. -/
theorem not_diagnosed_of_assemble_comma :
    ¬ ∀ (file : Option String) (text : String), ((new file).assemble text).2 = .ok () ∨
      ∃ d, ((new file).assemble text).2 = .error (.diagnostic d) := by
  intro h
  have hcomma : ((new (some "<string>")).assemble ",").2 = .error (.defect .noMnemonic) := by rfl
  rcases h (some "<string>") "," with hok | ⟨d, hd⟩
  · rw [hcomma] at hok
    cases hok
  · rw [hcomma] at hd
    cases hd

end Assembler

end Nibble
