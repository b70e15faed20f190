import Nibble.Instruction

/-! # Commands

A command is what a mnemonic says with its operands. The table of the commands is independent of
the catalog and its encoders. The cells of a command are given over any type of arguments, so that
they can be followed from the source to the machine.
-/

namespace Nibble

inductive Condition
  | always
  | zero
  | nonzero
  deriving DecidableEq, Repr

def Condition.opcode : Condition → Opcode
  | always => .jump
  | zero => .jumpZero
  | nonzero => .jumpNonzero

/-- An operand that stands for a number: the number itself, or a symbol for its address. -/
inductive Argument
  | number (n : Nat)
  | symbol (name : String)
  deriving DecidableEq, Repr

/-- What an operand token names, wherever it stands. -/
abbrev Term := Register ⊕ Argument

/-- The instructions over some type of arguments. -/
inductive Command (α : Type)
  | halt
  | add
  | sub
  | inc (r : Register)
  | dec (r : Register)
  | bell
  | print (x : α)
  | printRegister (r : Register)
  | load (x : α) (r : Register)
  | store (r : Register) (x : α)
  | jump (condition : Condition) (x : α)
  deriving DecidableEq, Repr

/-- What an argument puts into a cell; a symbol remembers the line that it stands on. -/
def Argument.cell (line : Option Int) : Argument → Cell
  | number n => .value n
  | symbol name => .symbol ⟨name, line⟩

def Argument.value (address : String → Int) : Argument → Int
  | number n => n
  | symbol name => address name

def Operand.term : Operand → Term
  | .register r => .inl r
  | .number n => .inr (.number n)
  | .symbol r => .inr (.symbol r.name)

/-- The operand that is read on a line from a token for a term. -/
def Term.operand (line : Option Int) : Term → Operand
  | .inl r => .register r
  | .inr (.number n) => .number n
  | .inr (.symbol name) => .symbol ⟨name, line⟩

def Term.ofToken? (token : String) : Option Term :=
  (Operand.parse token none).toOption.map Operand.term

namespace Command

variable {α β : Type}

def ofTerms : String → List Term → Option (Command Argument)
  | "halt", [] => some halt
  | "add", [] => some add
  | "sub", [] => some sub
  | "bell", [] => some bell
  | "inc", [.inl r] => some (inc r)
  | "dec", [.inl r] => some (dec r)
  | "prnt", [.inl r] => some (printRegister r)
  | "prnt", [.inr x] => some (print x)
  | "mov", [.inl r, .inr x] => some (store r x)
  | "mov", [.inr x, .inl r] => some (load x r)
  | "jmp", [.inr x] => some (jump .always x)
  | "jz", [.inr x] => some (jump .zero x)
  | "jnz", [.inr x] => some (jump .nonzero x)
  | _, _ => none

def ofTokens (mnemonic : String) (tokens : List String) : Option (Command Argument) :=
  (tokens.mapM Term.ofToken?).bind (ofTerms mnemonic)

def mnemonic : Command α → String
  | halt => "halt"
  | add => "add"
  | sub => "sub"
  | bell => "bell"
  | inc _ => "inc"
  | dec _ => "dec"
  | printRegister _ => "prnt"
  | print _ => "prnt"
  | store _ _ => "mov"
  | load _ _ => "mov"
  | jump .always _ => "jmp"
  | jump .zero _ => "jz"
  | jump .nonzero _ => "jnz"

def terms : Command Argument → List Term
  | inc r => [.inl r]
  | dec r => [.inl r]
  | printRegister r => [.inl r]
  | print x => [.inr x]
  | store r x => [.inl r, .inr x]
  | load x r => [.inr x, .inl r]
  | jump _ x => [.inr x]
  | _ => []

def map (f : α → β) : Command α → Command β
  | halt => halt
  | add => add
  | sub => sub
  | inc r => inc r
  | dec r => dec r
  | bell => bell
  | print x => print (f x)
  | printRegister r => printRegister r
  | load x r => load (f x) r
  | store r x => store r (f x)
  | jump condition x => jump condition (f x)

/-- The opcode in the first cell. A register is stored before it is printed. -/
def opcode : Command α → Opcode
  | halt => .halt
  | add => .add
  | sub => .sub
  | inc r => .inc r
  | dec r => .dec r
  | bell => .bell
  | print _ => .print
  | printRegister r => .store r
  | load _ r => .load r
  | store r _ => .store r
  | jump condition _ => condition.opcode

def rest (number : Int → α) (address : Int) : Command α → List α
  | print x => [x]
  | printRegister _ => [number (address + 3), number Opcode.print.code, number 0]
  | load x _ => [x]
  | store _ x => [x]
  | jump _ x => [x]
  | _ => []

/-- The cells of a command at an address, over any type that holds numbers. -/
def emit (number : Int → α) (address : Int) (c : Command α) : List α :=
  number c.opcode.code :: c.rest number address

def size : Command α → Nat
  | halt => 1
  | add => 1
  | sub => 1
  | inc _ => 1
  | dec _ => 1
  | bell => 1
  | printRegister _ => 4
  | print _ => 2
  | load _ _ => 2
  | store _ _ => 2
  | jump _ _ => 2

def sizes : List (Command α) → Nat
  | [] => 0
  | c :: cs => c.size + sizes cs

/-- The cells that an image holds for a command read from a line. -/
def cells (c : Command Argument) (address : Int) (line : Option Int) : List Cell :=
  (c.map (Argument.cell line)).emit .value address

theorem ofTerms_eq_some_iff {mnemonic : String} {ts : List Term} {c : Command Argument} :
    ofTerms mnemonic ts = some c ↔ mnemonic = c.mnemonic ∧ ts = c.terms := by
  constructor
  · intro h
    unfold ofTerms at h
    split at h <;> cases h <;> exact ⟨rfl, rfl⟩
  · rintro ⟨rfl, rfl⟩
    cases c with
    | jump condition x => cases condition <;> rfl
    | _ => rfl

theorem ofTokens_eq_some_iff {mnemonic : String} {tokens : List String} {c : Command Argument} :
    ofTokens mnemonic tokens = some c ↔
      mnemonic = c.mnemonic ∧ tokens.mapM Term.ofToken? = some c.terms := by
  simp only [ofTokens, Option.bind_eq_some_iff, ofTerms_eq_some_iff]
  constructor
  · rintro ⟨ts, hts, rfl, rfl⟩
    exact ⟨rfl, hts⟩
  · rintro ⟨rfl, hts⟩
    exact ⟨_, hts, rfl, rfl⟩

theorem size_pos (c : Command α) : 0 < c.size := by
  cases c <;> exact Nat.succ_pos _

theorem size_le_four (c : Command α) : c.size ≤ 4 := by
  cases c <;> exact Nat.le_of_ble_eq_true rfl

theorem map_map {γ : Type} (g : β → γ) (f : α → β) (c : Command α) :
    (c.map f).map g = c.map (g ∘ f) := by
  cases c <;> rfl

@[simp] theorem size_map (f : α → β) (c : Command α) : (c.map f).size = c.size := by
  cases c <;> rfl

theorem sizes_append (cs ds : List (Command α)) : sizes (cs ++ ds) = sizes cs + sizes ds := by
  induction cs with
  | nil => exact (Nat.zero_add _).symm
  | cons c cs ih => rw [List.cons_append, sizes, sizes, ih, Nat.add_assoc]

@[simp] theorem length_emit (number : Int → α) (address : Int) (c : Command α) :
    (c.emit number address).length = c.size := by
  cases c <;> rfl

@[simp] theorem length_cells (c : Command Argument) (address : Int) (line : Option Int) :
    (c.cells address line).length = c.size := by
  simp [cells]

theorem emit_map (f : α → β) (number : Int → α) (address : Int) (c : Command α) :
    (c.emit number address).map f = (c.map f).emit (f ∘ number) address := by
  cases c <;> rfl

theorem map_cells (f : Cell → α) (c : Command Argument) (address : Int) (line : Option Int) :
    (c.cells address line).map f =
      (c.map (f ∘ Argument.cell line)).emit (f ∘ Cell.value) address := by
  rw [cells, emit_map, map_map]

end Command

end Nibble
