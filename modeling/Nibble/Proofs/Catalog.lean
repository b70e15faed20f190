import Nibble.Keyed
import Nibble.Proofs.Diagnosis
import Nibble.Proofs.Tokens

/-! # The catalog

An instruction is refused for the first thing that is wrong with it: its mnemonic, the number of
its tokens, a token, or two operands that are alike. What is not refused is encoded, and the cells
have one of three forms.
-/

namespace Nibble

open Text

namespace Term

def kind (t : Term) : OperandKind :=
  (t.operand none).kind

theorem kind_operand (line : Option Int) (t : Term) : (t.operand line).kind = t.kind := by
  rcases t with r | x
  · rfl
  · cases x <;> rfl

theorem expect_operand_eq_error_iff {line : Option Int} {t : Term} {accepted : List OperandClass}
    {mnemonic : String} {c : Cause} :
    (t.operand line).expect accepted mnemonic = .error (.cause c) ↔
      ¬ t.Fits accepted ∧ c = .operandRefused mnemonic t.kind := by
  rw [Operand.expect, toClass_operand, kind_operand, Fits]
  split
  next h => simp [h]
  next h => simp [h, eq_comm]

end Term

/-! ## Tokens -/

namespace Operand

def Unreadable (token : String) : Prop :=
  register? token.toList = none ∧ name? token.toList = none

def TooLarge (token : String) : Prop :=
  ∃ digits value, numeral? token.toList = some digits ∧ numeralValue? digits = some value ∧
    wordLimit < value

theorem name?_of_numeral? {token digits : List Char} (h : numeral? token = some digits) :
    name? token = some digits := by
  unfold numeral? at h
  split at h
  next rest =>
    split at h
    next hnumeral =>
      cases h
      exact if_pos (Statement.isWord_of_isNumeral hnumeral)
    next => cases h
  next => cases h

theorem not_tooLong_of_length_le {token : String} (h : token.toList.length ≤ maxDigits) :
    ¬ TooLong token := by
  rintro ⟨digits, hd, hlong⟩
  unfold numeral? at hd
  split at hd
  next rest htoken =>
    split at hd
    next =>
      cases hd
      rw [htoken, List.length_cons] at h
      omega
    next => cases hd
  next => cases hd

theorem parse_eq_cause_iff {token : String} {line : Option Int} {c : Cause} :
    parse token line = .error (.cause c) ↔
      (c = .invalidOperand token ∧ Unreadable token) ∨
        (c = .operandTooLarge token ∧ TooLarge token) := by
  unfold parse Unreadable TooLarge
  cases hr : register? token.toList with
  | some r =>
    have hn : numeral? token.toList = none := by
      rw [Option.eq_none_iff_forall_ne_some]
      intro digits hd
      rw [register?_of_numeral? hd] at hr
      cases hr
    simp [hn]
  | none =>
    cases hn : numeral? token.toList with
    | none => cases name? token.toList <;> simp [eq_comm]
    | some digits =>
      rw [name?_of_numeral? hn]
      cases hv : numeralValue? digits with
      | none => simp [hv]
      | some n =>
        rcases Nat.lt_or_ge wordLimit n with hlarge | hle
        · simp [hv, hlarge, Nat.not_le_of_lt hlarge, eq_comm]
        · simp [hv, hle]

/-- What is wrong with a token in a place where some classes are accepted. -/
inductive Refused (mnemonic token : String) (accepted : List OperandClass) : Cause → Prop
  | unreadable (h : Unreadable token) : Refused mnemonic token accepted (.invalidOperand token)
  | tooLarge (h : TooLarge token) : Refused mnemonic token accepted (.operandTooLarge token)
  /-- The class matters only where the token can be read. -/
  | unfit {t : Term} (h : Term.ofToken? token = some t) (hfit : ¬ t.Fits accepted) :
    Refused mnemonic token accepted (.operandRefused mnemonic t.kind)

end Operand

namespace Instruction

/-- What each mnemonic accepts in the places of its operands. -/
def accepted? : String → Option (List (List OperandClass)) :=
  Keyed.find?
    [("halt", []), ("add", []), ("sub", []),
     ("inc", [[.register]]), ("dec", [[.register]]), ("bell", []),
     ("prnt", [[.register, .number]]),
     ("mov", [[.register, .number], [.register, .number]]),
     ("jmp", [[.number]]), ("jz", [[.number]]), ("jnz", [[.number]])]

theorem accepted?_eq (mnemonic : String) :
    accepted? mnemonic = (find? mnemonic).map fun entry => entry.format.shape := by
  change Keyed.find? (catalog.map fun entry => (entry.mnemonic, entry.format.shape)) mnemonic = _
  rw [Keyed.find?, List.find?_map, Option.map_map]
  rfl

/-- The first token that is refused, after tokens that are read and accepted. -/
inductive FirstRefused (mnemonic : String) :
    List String → List (List OperandClass) → Cause → Prop
  | here {token : String} {tokens : List String} {accepted : List OperandClass}
    {shape : List (List OperandClass)} {c : Cause} (h : Operand.Refused mnemonic token accepted c) :
    FirstRefused mnemonic (token :: tokens) (accepted :: shape) c
  | there {token : String} {tokens : List String} {accepted : List OperandClass}
    {shape : List (List OperandClass)} {c : Cause} (ht : Term.Reads token accepted)
    (h : FirstRefused mnemonic tokens shape c) :
    FirstRefused mnemonic (token :: tokens) (accepted :: shape) c

/-- What is wrong with an instruction; each reason matters only where those before do not apply. -/
inductive Refused (mnemonic : String) (tokens : List String) : Cause → Prop
  | unknown (h : accepted? mnemonic = none) :
    Refused mnemonic tokens (.unknownInstruction mnemonic)
  | count {shape : List (List OperandClass)} (h : accepted? mnemonic = some shape)
    (hlen : tokens.length ≠ shape.length) :
    Refused mnemonic tokens (.operandCount mnemonic shape.length tokens.length)
  | operand {shape : List (List OperandClass)} {c : Cause} (h : accepted? mnemonic = some shape)
    (hlen : tokens.length = shape.length) (hc : FirstRefused mnemonic tokens shape c) :
    Refused mnemonic tokens c
  | alike {t u : Term} (h : mnemonic = "mov") (ht : tokens.mapM Term.ofToken? = some [t, u])
    (halike : t.toClass = u.toClass) : Refused mnemonic tokens .operandsAlike

variable {mnemonic : String} {tokens : List String} {line : Option Int} {address : Int} {c : Cause}

theorem operands_eq_cause_iff {shape : List (List OperandClass)} :
    operands mnemonic line tokens shape = .error (.cause c) ↔
      FirstRefused mnemonic tokens shape c := by
  constructor
  · intro h
    induction tokens generalizing shape with
    | nil => cases h
    | cons token tokens ih =>
      cases shape with
      | nil => cases h
      | cons accepted shape =>
        rcases operands_cons_eq_error_iff.mp h with h | ⟨t, ht, h | ⟨hfit, h⟩⟩
        · rcases Operand.parse_eq_cause_iff.mp h with ⟨rfl, hbad⟩ | ⟨rfl, hbad⟩
          · exact .here (.unreadable hbad)
          · exact .here (.tooLarge hbad)
        · obtain ⟨hfit, rfl⟩ := Term.expect_operand_eq_error_iff.mp h
          exact .here (.unfit ht hfit)
        · exact .there ⟨t, ht, hfit⟩ (ih h)
  · intro h
    induction h with
    | here h =>
      apply operands_cons_eq_error_iff.mpr
      cases h with
      | unreadable h => exact .inl (Operand.parse_eq_cause_iff.mpr (.inl ⟨rfl, h⟩))
      | tooLarge h => exact .inl (Operand.parse_eq_cause_iff.mpr (.inr ⟨rfl, h⟩))
      | unfit ht hfit =>
        exact .inr ⟨_, ht, .inl (Term.expect_operand_eq_error_iff.mpr ⟨hfit, rfl⟩)⟩
    | there ht _ ih =>
      obtain ⟨t, ht, hfit⟩ := ht
      apply operands_cons_eq_error_iff.mpr
      exact .inr ⟨t, ht, .inr ⟨hfit, ih⟩⟩

/-- An instruction is refused for the first thing that is wrong with it. -/
theorem encode_eq_cause_iff :
    encode mnemonic tokens address line = .error (.cause c) ↔ Refused mnemonic tokens c := by
  have haccepted : ∀ {shape}, accepted? mnemonic = some shape ↔
      ∃ entry, find? mnemonic = some entry ∧ entry.format.shape = shape := by
    intro shape
    rw [accepted?_eq, Option.map_eq_some_iff]
  rw [encode_eq_error_iff]
  constructor
  · rintro (⟨hnone, hc⟩ | ⟨entry, hfind, ⟨hlen, hc⟩ | ⟨hlen, hops | ⟨hm, hc, t, u, ht, halike⟩⟩⟩)
    · cases hc
      apply Refused.unknown
      rw [accepted?_eq, hnone]
      rfl
    · cases hc
      exact .count (haccepted.mpr ⟨entry, hfind, rfl⟩) hlen
    · exact .operand (haccepted.mpr ⟨entry, hfind, rfl⟩) hlen (operands_eq_cause_iff.mp hops)
    · cases hc
      exact .alike hm ht halike
  · intro h
    cases h with
    | unknown h =>
      left
      rw [accepted?_eq, Option.map_eq_none_iff] at h
      exact ⟨h, rfl⟩
    | count h hlen =>
      right
      obtain ⟨entry, hfind, rfl⟩ := haccepted.mp h
      exact ⟨entry, hfind, .inl ⟨hlen, rfl⟩⟩
    | operand h hlen hc =>
      right
      obtain ⟨entry, hfind, rfl⟩ := haccepted.mp h
      exact ⟨entry, hfind, .inr ⟨hlen, .inl (operands_eq_cause_iff.mpr hc)⟩⟩
    | alike h ht halike =>
      right
      subst h
      have hlen : tokens.length = Format.move.shape.length := (mapM_eq_some_iff.mp ht).length_eq
      exact ⟨⟨"mov", none, .move⟩, rfl, .inr ⟨hlen, .inr ⟨rfl, rfl, _, _, ht, halike⟩⟩⟩

theorem Overlong.exists_tooLong {shape : List (List OperandClass)} (h : Overlong tokens shape) :
    ∃ token ∈ tokens, Operand.TooLong token := by
  induction tokens generalizing shape with
  | nil => cases h
  | cons token tokens ih =>
    cases shape with
    | nil => cases h
    | cons accepted shape =>
      rcases h with hlong | ⟨-, hrest⟩
      · exact ⟨token, .head _, hlong⟩
      · obtain ⟨other, hmem, hlong⟩ := ih hrest
        exact ⟨other, .tail _ hmem, hlong⟩

/-! ## Cells -/

/-- The form of the cells of a command. -/
structure WellEncoded (command : Command Argument) (address : Int) (line : Option Int)
    (cells : List Cell) : Prop where
  /-- There are four cells only where a register is printed. -/
  length : cells.length = 1 ∨ cells.length = 2 ∨
    cells.length = 4 ∧ ∃ r, command = .printRegister r
  opcode : ∃ op : Opcode, cells[0]? = some (.value op.code)
  print : cells.length = 4 → cells[2]? = some (.value Opcode.print.code)
  symbol : ∀ i r, cells[i]? = some (.symbol r) → i = 1 ∧ r.line = line
  /-- The address of the last cell need not be a word. -/
  value : ∀ i n, cells[i]? = some (.value n) →
    IsNibble n ∨ i = 1 ∧ n = address + 3 ∧ ∃ r, command = .printRegister r

theorem wellEncoded_cells {command : Command Argument} (hs : (Item.command command).Small)
    (address : Int) (line : Option Int) :
    WellEncoded command address line (command.cells address line) where
  length := by
    rw [Command.length_cells]
    cases command with
    | printRegister r => exact .inr (.inr ⟨rfl, r, rfl⟩)
    | print | load | store | jump => exact .inr (.inl rfl)
    | _ => exact .inl rfl
  opcode := ⟨(command.map (Argument.cell line)).opcode, rfl⟩
  print := by
    rw [Command.length_cells]
    intro hlen
    cases command with
    | printRegister r => rfl
    | _ => cases hlen
  symbol := by
    intro i r hr
    constructor
    · rcases i with _ | i
      · cases hr
      · cases command with
        | printRegister r =>
          rcases i with _ | _ | _ | i <;> cases hr
        | print | load | store | jump =>
          cases i with
          | zero => rfl
          | succ i => cases hr
        | _ => cases hr
    · exact Command.line_of_symbol_mem_cells (List.mem_of_getElem? hr)
  value := by
    intro i n hn
    exact Command.isNibble_or_of_getElem?_cells hs hn

/--
Unless a token has too many digits, an instruction is refused for the first thing that is wrong
with it, and on its line, or it is a command and is encoded into its cells.
-/
theorem encode_refused_or_wellEncoded (mnemonic : String) (tokens : List String) (address : Int)
    (line : Option Int) (h : ∀ token ∈ tokens, ¬ Operand.TooLong token) :
    (∀ c, encode mnemonic tokens address line = .error (.cause c) ↔ Refused mnemonic tokens c) ∧
    ((∀ c, ¬ Refused mnemonic tokens c) → ∃ command,
      Command.ofTokens mnemonic tokens = some command ∧
      encode mnemonic tokens address line = .ok (command.cells address line) ∧
      WellEncoded command address line (command.cells address line)) ∧
    ∀ (a : Assembler) (source : String) (c : Cause), Refused mnemonic tokens c →
      a.enter source line (.instruction mnemonic tokens) =
        (a, .error (.diagnostic ⟨c, ⟨a.file, line⟩⟩)) := by
  refine ⟨fun c => encode_eq_cause_iff, ?_, ?_⟩
  · intro hnone
    cases he : encode mnemonic tokens address line with
    | ok cells =>
      obtain ⟨command, hc, rfl⟩ := encode_eq_ok_iff.mp he
      exact ⟨command, hc, rfl, wellEncoded_cells (Command.small_of_ofTokens hc) address line⟩
    | error fault =>
      cases fault with
      | cause c => exact absurd (encode_eq_cause_iff.mp he) (hnone c)
      | defect d =>
        obtain ⟨-, entry, -, -, hlong⟩ := encode_eq_defect_iff.mp he
        obtain ⟨token, hmem, hlong⟩ := hlong.exists_tooLong
        exact absurd hlong (h token hmem)
  · intro a source c hc
    have he : encode mnemonic tokens a.image.codeCursor line = .error (.cause c) :=
      encode_eq_cause_iff.mpr hc
    simp only [Assembler.enter, he]
    rfl

/-- A jump with two tokens is refused for their number, and a register can be printed. -/
theorem encode_refused_or_wellEncoded_jump_print :
    (∀ token ∈ ["@", "$1"], ¬ Operand.TooLong token) ∧
    Refused "jmp" ["@", "$1"] (.operandCount "jmp" 1 2) ∧
    (∀ token ∈ ["%r0"], ¬ Operand.TooLong token) ∧
    ∃ command, Command.ofTokens "prnt" ["%r0"] = some command ∧
      encode "prnt" ["%r0"] 14 (some 3) = .ok (command.cells 14 (some 3)) ∧
      WellEncoded command 14 (some 3) (command.cells 14 (some 3)) := by
  have hjump : ∀ token ∈ ["@", "$1"], ¬ Operand.TooLong token := by
    have hlen : ∀ token ∈ ["@", "$1"], token.toList.length ≤ maxDigits := by decide
    exact fun token hmem => Operand.not_tooLong_of_length_le (hlen token hmem)
  have hprint : ∀ token ∈ ["%r0"], ¬ Operand.TooLong token := by
    have hlen : ∀ token ∈ ["%r0"], token.toList.length ≤ maxDigits := by decide
    exact fun token hmem => Operand.not_tooLong_of_length_le (hlen token hmem)
  have hcount : encode "jmp" ["@", "$1"] 0 none = .error (.cause (.operandCount "jmp" 1 2)) := by
    rfl
  have hok : encode "prnt" ["%r0"] 14 (some 3) =
      .ok [.value 11, .value 17, .value 8, .value 0] := by
    rfl
  obtain ⟨hrefused, -, -⟩ := encode_refused_or_wellEncoded "jmp" ["@", "$1"] 0 none hjump
  obtain ⟨hnone, hencoded, -⟩ := encode_refused_or_wellEncoded "prnt" ["%r0"] 14 (some 3) hprint
  refine ⟨hjump, (hrefused _).mp hcount, hprint, hencoded ?_⟩
  intro c hc
  cases hok.symm.trans ((hnone c).mpr hc)

end Instruction

end Nibble
