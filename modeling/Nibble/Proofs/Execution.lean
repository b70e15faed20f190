import Nibble.Machine
import Nibble.Proofs.Encoding
import Nibble.Proofs.Resolution

/-! # Executing commands

A command that stands in memory does to the machine what its mnemonic says, whatever the machine
holds elsewhere. One step executes it, except that a register is printed in two, the first of
which stores it into the command itself.
-/

namespace Nibble

theorem getElem?_of_isPrefix {α : Type} {piece memory : List α} {a i : Nat} {x : α}
    (h : piece <+: memory.drop a) (hx : piece[i]? = some x) : memory[a + i]? = some x := by
  obtain ⟨tail, ht⟩ := h
  have hi : i < piece.length := (List.getElem?_eq_some_iff.mp hx).1
  rw [← List.getElem?_drop, ← ht, List.getElem?_append_left hi, hx]

namespace Machine

/-- Sixteen cells and two registers, all of which hold words. -/
structure Valid (m : Machine) : Prop where
  length_memory : m.memory.length = memorySize
  memory : ∀ n ∈ m.memory, IsNibble n
  r0 : IsNibble m.r0
  r1 : IsNibble m.r1

/-- A number of steps, also beyond a halt. -/
def stepTimes : Nat → Machine → Except Machine Machine
  | 0, m => .ok m
  | n + 1, m => m.step >>= stepTimes n

theorem stepTimes_one (m : Machine) : m.stepTimes 1 = m.step := by
  cases h : m.step <;> simp [stepTimes, h, bind, Except.bind]

theorem stepTimes_add {m m' : Machine} {k : Nat} (h : m.stepTimes k = .ok m') (n : Nat) :
    m.stepTimes (k + n) = m'.stepTimes n := by
  induction k generalizing m with
  | zero =>
    cases h
    rw [Nat.zero_add]
  | succ k ih =>
    obtain ⟨m₁, hs, h⟩ := bind_eq_ok_iff.mp h
    rw [Nat.add_right_comm, stepTimes, hs]
    exact ih h

theorem text_emit (m : Machine) (signal : Signal) :
    (m.emit signal).text = m.text ++ signal.text m.bellStyle := by
  simp [text, textFrom, emit, String.join]

def tick (m : Machine) : Machine :=
  { m with steps := m.steps + 1 }

variable {m : Machine} {address : Nat}

theorem fetch_eq {n : Int} (hl : m.memory.length = memorySize) (hip : m.ip = address)
    (hn : m.memory[address]? = some n) : m.fetch = .ok (n, { m with ip := address + 1 }) := by
  have hlt : address < memorySize := hl ▸ (List.getElem?_eq_some_iff.mp hn).1
  have he : entry? m.memory address = some n := by
    simp [position?_natCast (hl.symm ▸ hlt), entry?, hn]
  simp [fetch, hip, hlt, he]

theorem step_eq_perform {n : Int} (hl : m.memory.length = memorySize) (hip : m.ip = address)
    (hn : m.memory[address]? = some n) :
    m.step = (Machine.perform { m with ip := address + 1 } n).map tick := by
  have hlt : address < memorySize := hl ▸ (List.getElem?_eq_some_iff.mp hn).1
  simp only [step, hip, Int.ofNat_lt.mpr hlt, if_true, fetch_eq hl hip hn]
  simp [bind, Except.bind, pure, Except.pure]
  cases Machine.perform { m with ip := address + 1 } n <;> rfl

theorem step_of_plain {op : Opcode} (hl : m.memory.length = memorySize) (hip : m.ip = address)
    (hop : m.memory[address]? = some (op.code : Int)) (ht : Opcode.takesOperand op.code = false) :
    m.step = (Machine.execute { m with ip := address + 1 } op 0).map tick := by
  rw [step_eq_perform hl hip hop, perform, ht, Opcode.ofCode?_code]
  rfl

theorem step_of_operand {op : Opcode} {n : Int} (hl : m.memory.length = memorySize)
    (hip : m.ip = address) (hop : m.memory[address]? = some (op.code : Int))
    (hn : m.memory[address + 1]? = some n) (ht : Opcode.takesOperand op.code = true) :
    m.step = (Machine.execute { m with ip := address + 2 } op n).map tick := by
  have hf : Machine.fetch { m with ip := address + 1 } = .ok (n, { m with ip := address + 2 }) :=
    fetch_eq hl (by simp) hn
  rw [step_eq_perform hl hip hop, perform, ht, Opcode.ofCode?_code]
  simp [hf, bind, Except.bind]

end Machine

def Condition.Holds (r0 : Int) : Condition → Prop
  | always => True
  | zero => r0 = 0
  | nonzero => r0 ≠ 0

instance (r0 : Int) (condition : Condition) : Decidable (condition.Holds r0) := by
  cases condition <;> unfold Condition.Holds <;> infer_instance

namespace Command

/-- The number of steps that execute a command. -/
def stepCount {α : Type} : Command α → Nat
  | printRegister _ => 2
  | _ => 1

/-- What a command at an address does to the machine. -/
def effect (c : Command Int) (address : Nat) (m : Machine) : Machine :=
  let next := { m with ip := address + c.size, steps := m.steps + c.stepCount }
  match c with
  | halt => { next with halted := true, output := m.output.push .newline }
  | add => { next with r0 := (m.r0 + m.r1) % 16 }
  | sub => { next with r0 := (m.r0 - m.r1) % 16 }
  | inc r => next.set r ((m.get r + 1) % 16)
  | dec r => next.set r ((m.get r - 1) % 16)
  | bell => { next with output := m.output.push .bell }
  | print n => { next with output := m.output.push (.number n) }
  | printRegister r =>
    { next with
      memory := m.memory.set (address + 3) (m.get r), output := m.output.push (.number (m.get r)) }
  | load place r => next.set r (m.memory.getD place.toNat 0)
  | store r place => { next with memory := m.memory.set place.toNat (m.get r) }
  | jump condition target => if condition.Holds m.r0 then { next with ip := target } else next

def written (m : Machine) : Command Int → String
  | halt => "\n"
  | bell => m.bellStyle.text
  | print n => toString n ++ " "
  | printRegister r => toString (m.get r) ++ " "
  | _ => ""

/-- Whether a cell that a command loads or stores is in memory. -/
def InMemory : Command Int → Prop
  | load place _ => IsNibble place
  | store _ place => IsNibble place
  | _ => True

/-- The cells of a command that the command itself leaves alone. -/
def stable (c : Command Int) (address : Nat) : List Int :=
  match c with
  | printRegister _ => (c.emit id address).take 3
  | _ => c.emit id address

@[simp] theorem stepCount_map {α β : Type} (f : α → β) (c : Command α) :
    (c.map f).stepCount = c.stepCount := by
  cases c <;> rfl

theorem map_number_cells (address : String → Int) (c : Command Argument) (lc : Int)
    (line : Option Int) : (c.cells lc line).map (Cell.number address) =
      (c.map (Argument.value address)).emit id lc := by
  have hf : Cell.number address ∘ Argument.cell line = Argument.value address := by
    ext x
    cases x <;> rfl
  rw [map_cells, hf]
  rfl

theorem inMemory_of_emit {c : Command Int} {address : Int}
    (h : ∀ n ∈ c.emit id address, IsNibble n) : c.InMemory := by
  cases c with
  | load n r => exact h n (.tail _ (.head _))
  | store r n => exact h n (.tail _ (.head _))
  | _ => exact trivial

theorem stable_isPrefix (c : Command Int) (address : Nat) :
    c.stable address <+: c.emit id address := by
  unfold stable
  split
  · exact List.take_prefix ..
  · exact List.prefix_rfl

theorem text_effect (c : Command Int) (address : Nat) (m : Machine) :
    (c.effect address m).text = m.text ++ c.written m := by
  cases c with
  | halt => exact Machine.text_emit m .newline
  | bell => exact Machine.text_emit m .bell
  | print n => exact Machine.text_emit m (.number n)
  | printRegister r => exact Machine.text_emit m (.number (m.get r))
  | inc r | dec r | load _ r => cases r <;> exact (String.append_empty).symm
  | jump condition target =>
    simp only [effect, written, String.append_empty]
    split <;> rfl
  | _ => exact (String.append_empty).symm

end Command

namespace Machine

open Command

variable {m : Machine} {address : Nat}

theorem execute_load {n : Int} (hl : m.memory.length = memorySize) (hn : IsNibble n)
    (r : Register) :
    m.execute (.load r) n = .ok (m.set r (m.memory.getD n.toNat 0)) := by
  obtain ⟨place, hlt, rfl⟩ := hn.exists_nat
  have hlt' : place < m.memory.length := hl.symm ▸ hlt
  simp [execute, entry?, position?_natCast hlt', hlt']

theorem execute_store {n : Int} (hl : m.memory.length = memorySize) (hn : IsNibble n)
    (r : Register) :
    m.execute (.store r) n = .ok { m with memory := m.memory.set n.toNat (m.get r) } := by
  obtain ⟨place, hlt, rfl⟩ := hn.exists_nat
  have hlt' : place < m.memory.length := hl.symm ▸ hlt
  simp [execute, setEntry?, position?_natCast hlt']

/-- A register is printed by a store into the operand of the print that follows. -/
theorem stepTimes_printRegister {r : Register} (hl : m.memory.length = memorySize)
    (hip : m.ip = address) (hfit : address + 4 ≤ memorySize)
    (hcells : (printRegister r).stable address <+: m.memory.drop address) :
    m.stepTimes 2 = .ok ((printRegister r).effect address m) := by
  have hop : m.memory[address]? = some ((Opcode.store r).code : Int) :=
    getElem?_of_isPrefix (i := 0) hcells rfl
  have hplace : m.memory[address + 1]? = some ((address + 3 : Nat) : Int) :=
    getElem?_of_isPrefix hcells rfl
  have hprint : m.memory[address + 2]? = some (Opcode.print.code : Int) :=
    getElem?_of_isPrefix hcells rfl
  have hlast : address + 3 < m.memory.length := by unfold memorySize at *; omega
  -- The store leaves the print that follows alone and gives it its operand.
  let stored : Machine :=
    { m with
      ip := address + 2, memory := m.memory.set (address + 3) (m.get r), steps := m.steps + 1 }
  have hs : m.step = .ok stored := by
    rw [step_of_operand hl hip hop hplace (by cases r <;> rfl),
      execute_store (by exact hl) (isNibble_natCast_iff.mpr (hl ▸ hlast))]
    cases r <;> rfl
  have hprint' : stored.memory[address + 2]? = some (Opcode.print.code : Int) := by
    simpa [stored] using hprint
  have hvalue : stored.memory[address + 3]? = some (m.get r) := by
    simp [stored, hlast]
  rw [stepTimes, hs]
  change stored.stepTimes 1 = _
  rw [stepTimes_one, step_of_operand (by simpa [stored] using hl) rfl hprint' hvalue rfl]
  simp [stored, execute, Except.map, tick, effect, emit, size, stepCount, Int.add_assoc]

/-- A command in memory is executed in its number of steps, and has its effect. -/
theorem stepTimes_command {c : Command Int} (hl : m.memory.length = memorySize)
    (hip : m.ip = address) (hfit : address + c.size ≤ memorySize)
    (hcells : c.stable address <+: m.memory.drop address) (hplace : c.InMemory) :
    m.stepTimes c.stepCount = .ok (c.effect address m) := by
  have hop : m.memory[address]? = some (c.opcode.code : Int) :=
    getElem?_of_isPrefix (i := 0) hcells (by cases c <;> rfl)
  cases c with
  | printRegister r => exact stepTimes_printRegister hl hip hfit hcells
  | halt | add | sub | bell =>
    change m.stepTimes 1 = _
    rw [stepTimes_one, step_of_plain hl hip hop rfl]
    rfl
  | inc r | dec r =>
    change m.stepTimes 1 = _
    rw [stepTimes_one, step_of_plain hl hip hop (by cases r <;> rfl)]
    cases r <;> rfl
  | print n =>
    have hn : m.memory[address + 1]? = some n := getElem?_of_isPrefix hcells rfl
    change m.stepTimes 1 = _
    rw [stepTimes_one, step_of_operand hl hip hop hn rfl]
    rfl
  | load n r =>
    have hn : m.memory[address + 1]? = some n := getElem?_of_isPrefix hcells rfl
    change m.stepTimes 1 = _
    rw [stepTimes_one, step_of_operand hl hip hop hn (by cases r <;> rfl), opcode,
      execute_load (by exact hl) hplace]
    cases r <;> rfl
  | store r n =>
    have hn : m.memory[address + 1]? = some n := getElem?_of_isPrefix hcells rfl
    change m.stepTimes 1 = _
    rw [stepTimes_one, step_of_operand hl hip hop hn (by cases r <;> rfl), opcode,
      execute_store (by exact hl) hplace]
    cases r <;> rfl
  | jump condition n =>
    have hn : m.memory[address + 1]? = some n := getElem?_of_isPrefix hcells rfl
    change m.stepTimes 1 = _
    rw [stepTimes_one, step_of_operand hl hip hop hn (by cases condition <;> rfl)]
    cases condition with
    | always => rfl
    | zero =>
      by_cases h : m.r0 = 0 <;>
        simp [opcode, Condition.opcode, execute, effect, Condition.Holds, h] <;> rfl
    | nonzero =>
      by_cases h : m.r0 = 0 <;>
        simp [opcode, Condition.opcode, execute, effect, Condition.Holds, h] <;> rfl

/--
What can be encoded at an address and stands there with its symbols resolved is executed as its
mnemonic says. Nothing else changes but the step count, even where the command stores into itself.
-/
theorem stepTimes_of_encode {mnemonic : String} {tokens : List String} {line : Option Int}
    {cells : List Cell} {symbols : SymbolTable} {words : List Int}
    (he : Instruction.encode mnemonic tokens address line = .ok cells)
    (hr : cells.mapM (Image.resolveCell symbols) = .ok (words.map Cell.value))
    (hm : m.Valid) (hip : m.ip = address) (hw : words <+: m.memory.drop address) :
    ∃ c, Command.ofTokens mnemonic tokens = some c ∧
      let resolved := c.map (Argument.value symbols.address)
      m.stepTimes c.stepCount = .ok (resolved.effect address m) ∧
        (resolved.effect address m).text = m.text ++ resolved.written m := by
  obtain ⟨c, hc, rfl⟩ := Instruction.encode_eq_ok_iff.mp he
  obtain rfl : words = (c.map (Argument.value symbols.address)).emit id address := by
    have h := (Image.mapM_resolveCell_eq_ok_iff.mp hr).2
    rw [Command.map_number_cells] at h
    exact List.map_injective_iff.mpr (fun _ _ h => Cell.value.inj h) h
  refine ⟨c, hc, ?_, text_effect _ _ _⟩
  have hlen := hw.length_le
  rw [length_emit, List.length_drop, hm.length_memory] at hlen
  have hfit : address + c.size ≤ memorySize := by
    have := c.size_pos
    rw [size_map] at hlen
    omega
  rw [← stepCount_map (Argument.value symbols.address) c]
  apply stepTimes_command hm.length_memory hip (by rwa [size_map])
    ((stable_isPrefix _ _).trans hw)
  apply inMemory_of_emit
  intro n hn
  exact hm.memory n (List.mem_of_mem_drop (hw.subset hn))

/-- A store into the operand of the store. -/
theorem stepTimes_of_encode_store_here :
    let m : Machine :=
      ⟨[0, 0, 0, 0, 12, 5, 0, 0, 0, 0, 0, 0, 0, 0, 0, 0], 4, 3, 9, 0, false, .ring, #[]⟩
    let symbols : SymbolTable := ⟨[("here", 5)]⟩
    Instruction.encode "mov" ["%r1", "here"] 4 (some 7) =
        .ok [.value 12, .symbol ⟨"here", some 7⟩] ∧
      [.value 12, .symbol ⟨"here", some 7⟩].mapM (Image.resolveCell symbols) =
        .ok ([12, 5].map Cell.value) ∧
      m.Valid ∧ m.ip = (4 : Nat) ∧ [12, 5] <+: m.memory.drop 4 ∧
      ∃ c, Command.ofTokens "mov" ["%r1", "here"] = some c ∧
        let resolved := c.map (Argument.value symbols.address)
        m.stepTimes c.stepCount = .ok (resolved.effect 4 m) ∧
          (resolved.effect 4 m).text = m.text ++ resolved.written m := by
  intro m symbols
  have he : Instruction.encode "mov" ["%r1", "here"] 4 (some 7) =
      .ok [.value 12, .symbol ⟨"here", some 7⟩] := by rfl
  have hr : [.value 12, .symbol ⟨"here", some 7⟩].mapM (Image.resolveCell symbols) =
      .ok ([12, 5].map Cell.value) := by rfl
  have hm : m.Valid := ⟨rfl, by decide, by decide, by decide⟩
  have hw : [12, 5] <+: m.memory.drop 4 := ⟨_, rfl⟩
  exact ⟨he, hr, hm, rfl, hw, stepTimes_of_encode he hr hm rfl hw⟩

end Machine

end Nibble
