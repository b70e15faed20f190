import Nibble.Proofs.Encoding
import Nibble.Statement

/-! # Source lines

A line that can be assembled holds at most one item: data, a label or a command. The numbers in
items are words.
-/

namespace Nibble

open Text

/-- A statement whose instruction, if it is one, is a command. -/
inductive Item
  | data (name : String) (value : Nat)
  | label (name : String)
  | command (c : Command Argument)
  deriving DecidableEq, Repr

def Statement.item? : Statement → Option Item
  | .data name value => some (.data name value)
  | .label name => some (.label name)
  | .instruction mnemonic tokens => (Command.ofTokens mnemonic tokens).map .command

inductive Statement.Means : Statement → Item → Prop
  | data (name : String) (value : Nat) : Means (.data name value) (.data name value)
  | label (name : String) : Means (.label name) (.label name)
  | command {mnemonic : String} {tokens : List String} {c : Command Argument}
    (h : Command.ofTokens mnemonic tokens = some c) :
    Means (.instruction mnemonic tokens) (.command c)

theorem Statement.means_of_item? {s : Statement} {item : Item} (h : s.item? = some item) :
    s.Means item := by
  cases s with
  | data name value =>
    cases h
    exact .data name value
  | label name =>
    cases h
    exact .label name
  | instruction mnemonic tokens =>
    obtain ⟨c, hc, rfl⟩ := Option.map_eq_some_iff.mp h
    exact .command hc

def Item.Small : Item → Prop
  | .data _ value => value ≤ wordLimit
  | .label _ => True
  | .command c => ∀ n, .inr (.number n) ∈ c.terms → n ≤ wordLimit

theorem Term.le_of_ofToken? {token : String} {n : Nat}
    (h : Term.ofToken? token = some (.inr (.number n))) : n ≤ wordLimit := by
  have hp : Operand.parse token none = .ok (.number n) := Operand.parse_eq_ok_iff.mpr ⟨_, h, rfl⟩
  unfold Operand.parse at hp
  split at hp
  · cases hp
  · split at hp
    · split at hp
      · cases hp
      · split at hp
        next hle => cases hp; exact hle
        next => cases hp
    · split at hp <;> cases hp

theorem Command.small_of_ofTokens {mnemonic : String} {tokens : List String}
    {c : Command Argument} (h : ofTokens mnemonic tokens = some c) : (Item.command c).Small := by
  intro n hn
  have hf := mapM_eq_some_iff.mp (ofTokens_eq_some_iff.mp h).2
  obtain ⟨i, hi, he⟩ := List.getElem_of_mem hn
  have ht := List.Forall₂.get hf (hf.length_eq ▸ hi) hi
  exact Term.le_of_ofToken? (ht.trans (congrArg some he))

theorem Opcode.isNibble_code (op : Opcode) : IsNibble op.code := by
  cases op with
  | inc r | dec r | load r | store r => cases r <;> decide
  | _ => decide

/-- The numbers in the cells are words, up to the address of a cell that is stored into. -/
theorem Command.isNibble_or_of_getElem?_cells {c : Command Argument} {address : Int}
    {line : Option Int} (hs : (Item.command c).Small) {i : Nat} {n : Int}
    (hn : (c.cells address line)[i]? = some (.value n)) :
    IsNibble n ∨ i = 1 ∧ n = address + 3 ∧ ∃ r, c = .printRegister r := by
  have harg : ∀ x : Argument, .inr x ∈ c.terms → .value n ∈ [x.cell line] → IsNibble n := by
    rintro (k | name) hx he
    · cases List.mem_singleton.mp he
      exact isNibble_natCast_iff.mpr (Nat.lt_succ_of_le (hs k hx))
    · cases List.mem_singleton.mp he
  cases i with
  | zero =>
    cases hn
    exact .inl (Opcode.isNibble_code _)
  | succ i =>
    change ((c.map (Argument.cell line)).rest .value address)[i]? = _ at hn
    cases c with
    | printRegister r =>
      rcases i with _ | _ | _ | i
      · cases hn
        exact .inr ⟨rfl, rfl, r, rfl⟩
      · cases hn
        exact .inl (by decide)
      · cases hn
        exact .inl (by decide)
      · cases hn
    | print x => exact .inl (harg x (.head _) (List.mem_of_getElem? hn))
    | load x r => exact .inl (harg x (.head _) (List.mem_of_getElem? hn))
    | store r x => exact .inl (harg x (.tail _ (.head _)) (List.mem_of_getElem? hn))
    | jump condition x => exact .inl (harg x (.head _) (List.mem_of_getElem? hn))
    | _ => cases hn

theorem Command.isNibble_of_mem_cells {c : Command Argument} {address : Nat} {line : Option Int}
    (hs : (Item.command c).Small) (hfit : address + c.size ≤ memorySize) {n : Int}
    (hn : .value n ∈ c.cells address line) : IsNibble n := by
  obtain ⟨i, hi⟩ := List.mem_iff_getElem?.mp hn
  rcases isNibble_or_of_getElem?_cells hs hi with h | ⟨-, rfl, r, rfl⟩
  · exact h
  · exact isNibble_natCast_iff.mpr hfit

namespace Statement

theorem le_of_parse {raw : List Char} {name : String} {value : Nat}
    (h : parse raw = .ok (some (.data name value))) : value ≤ wordLimit := by
  unfold parse at h
  split at h
  · cases h
  · obtain ⟨s, hs, h⟩ := map_eq_ok_iff.mp h
    cases h
    unfold parseData at hs
    split at hs
    · cases hs
    · split at hs
      · cases hs
      · split at hs
        next hle => cases hs; exact hle
        next => cases hs
  · split at h
    · cases h
    · obtain ⟨s, hs, h⟩ := map_eq_ok_iff.mp h
      cases h
      unfold parseInstruction at hs
      split at hs <;> cases hs

end Statement

namespace Source

def statement? (raw : List Char) : Option Statement :=
  (Statement.parse raw).toOption.join

def item? (raw : List Char) : Option Item :=
  (statement? raw).bind Statement.item?

def statements (lines : List (Option Int × List Char)) : List Statement :=
  lines.filterMap fun x => statement? x.2

def items (lines : List (Option Int × List Char)) : List (Option Int × Item) :=
  lines.filterMap fun x => (item? x.2).map (x.1, ·)

/-- Whether a line can be read, and its instruction encoded, no matter where, if it holds one. -/
def Readable (raw : List Char) : Prop :=
  ∃ s?, Statement.parse raw = .ok s? ∧
    ∀ mnemonic tokens, s? = some (.instruction mnemonic tokens) →
      ∃ address line cells, Instruction.encode mnemonic tokens address line = .ok cells

/-- The lines of a source, numbered from `line` on, without a carriage return at the end. -/
def numbered (line : Int) : List (List Char) → List (Option Int × List Char)
  | [] => []
  | raw :: rest => (some line, trimEnd (· = '\r') raw) :: numbered (line + 1) rest

def ofText (text : String) : List (Option Int × List Char) :=
  numbered 1 (lines text.toList)

variable {raw : List Char} {s : Statement} {item : Item}

theorem statement?_eq_some_iff : statement? raw = some s ↔ Statement.parse raw = .ok (some s) := by
  unfold statement?
  cases Statement.parse raw with
  | error fault => simp [Except.toOption]
  | ok s? => simp [Except.toOption]

theorem readable_iff : Readable raw ↔ Statement.parse raw = .ok none ∨
    ∃ s item, statement? raw = some s ∧ s.item? = some item := by
  simp only [statement?_eq_some_iff]
  constructor
  · rintro ⟨_ | s, hp, he⟩
    · exact .inl hp
    · refine .inr ⟨s, ?_⟩
      cases s with
      | data name value => exact ⟨_, hp, rfl⟩
      | label name => exact ⟨_, hp, rfl⟩
      | instruction mnemonic tokens =>
        obtain ⟨address, line, cells, he⟩ := he mnemonic tokens rfl
        obtain ⟨c, hc, -⟩ := Instruction.encode_eq_ok_iff.mp he
        exact ⟨.command c, hp, by rw [Statement.item?, hc, Option.map_some]⟩
  · rintro (hp | ⟨s, item, hp, hi⟩)
    · exact ⟨none, hp, by rintro _ _ ⟨⟩⟩
    · refine ⟨some s, hp, ?_⟩
      rintro mnemonic tokens ⟨⟩
      obtain ⟨c, hc, -⟩ := Option.map_eq_some_iff.mp hi
      exact ⟨0, none, _, Instruction.encode_eq_ok_iff.mpr ⟨c, hc, rfl⟩⟩

instance (raw : List Char) : Decidable (Readable raw) :=
  match h : Statement.parse raw with
  | .error _ => isFalse fun hr => by
    obtain ⟨s?, hp, -⟩ := hr
    cases h.symm.trans hp
  | .ok none => isTrue (readable_iff.mpr (.inl h))
  | .ok (some s) =>
    decidable_of_iff (s.item?.isSome) <| by
      rw [readable_iff, h, statement?, h]
      simp [Except.toOption, Option.isSome_iff_exists]

theorem small_of_item? (h : item? raw = some item) : item.Small := by
  obtain ⟨s, hs, hi⟩ := Option.bind_eq_some_iff.mp h
  cases Statement.means_of_item? hi with
  | data name value => exact Statement.le_of_parse (statement?_eq_some_iff.mp hs)
  | label name => trivial
  | command hc => exact Command.small_of_ofTokens hc

end Source

end Nibble
