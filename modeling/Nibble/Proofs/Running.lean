import Nibble.Proofs.Execution
import Nibble.Proofs.Loading

/-! # Running loaded programs

Whatever a program does to its own code, a machine that runs it stays within bounds: its cells and
registers hold words, and its pointer stands in the memory or at most one cell beyond the end of
it. No step fails on such a machine, and so no run does.
-/

namespace Nibble

theorem isNibble_emod (n : Int) : IsNibble (n % wordModulus) := by
  unfold IsNibble wordModulus wordLimit
  omega

namespace Opcode

def stride (cell : Int) : Nat :=
  if takesOperand cell then 2 else 1

theorem stride_pos (cell : Int) : 0 < stride cell := by
  unfold stride
  split <;> decide

theorem stride_le (cell : Int) : stride cell ≤ 2 := by
  unfold stride
  split <;> decide

theorem exists_of_isNibble {cell : Int} (h : IsNibble cell) : ∃ op : Opcode, cell = op.code := by
  obtain ⟨k, hk, rfl⟩ := h.exists_nat
  have hall : ∀ k < memorySize, (ofCode? k).isSome := by decide
  obtain ⟨op, hop⟩ := Option.isSome_iff_exists.mp (hall k hk)
  exact ⟨op, eq_code_of_ofCode? hop⟩

end Opcode

namespace Machine

variable {m : Machine} {n : Int}

@[simp] theorem ip_set (m : Machine) (r : Register) (value : Int) : (m.set r value).ip = m.ip := by
  cases r <;> rfl

@[simp] theorem steps_set (m : Machine) (r : Register) (value : Int) :
    (m.set r value).steps = m.steps := by
  cases r <;> rfl

theorem Valid.of_eq {m' : Machine} (h : m.Valid) (hm : m'.memory = m.memory) (h0 : m'.r0 = m.r0)
    (h1 : m'.r1 = m.r1) : m'.Valid where
  length_memory := by rw [hm, h.length_memory]
  memory := by
    rw [hm]
    exact h.memory
  r0 := by
    rw [h0]
    exact h.r0
  r1 := by
    rw [h1]
    exact h.r1

theorem Valid.isNibble_get (h : m.Valid) (r : Register) : IsNibble (m.get r) := by
  cases r with
  | r0 => exact h.r0
  | r1 => exact h.r1

theorem Valid.isNibble_getD (h : m.Valid) (i : Nat) : IsNibble (m.memory.getD i 0) := by
  rw [List.getD_eq_getElem?_getD]
  cases hi : m.memory[i]? with
  | none => exact (by decide : IsNibble 0)
  | some n => exact h.memory n (List.mem_of_getElem? hi)

theorem Valid.set (h : m.Valid) (hn : IsNibble n) (r : Register) : (m.set r n).Valid := by
  cases r with
  | r0 => exact ⟨h.length_memory, h.memory, hn, h.r1⟩
  | r1 => exact ⟨h.length_memory, h.memory, h.r0, hn⟩

theorem Valid.store (h : m.Valid) (hn : IsNibble n) (i : Nat) :
    Valid { m with memory := m.memory.set i n } where
  length_memory := by rw [List.length_set, h.length_memory]
  memory k hk := (List.mem_or_eq_of_mem_set hk).elim (h.memory k) fun he => he ▸ hn
  r0 := h.r0
  r1 := h.r1

theorem Valid.execute (h : m.Valid) (hn : IsNibble n) (op : Opcode) :
    ∃ m', m.execute op n = .ok m' ∧ m'.Valid ∧ (m'.ip = m.ip ∨ m'.ip = n) ∧
      m'.steps = m.steps := by
  cases op with
  | halt => exact ⟨_, rfl, h.of_eq rfl rfl rfl, .inl rfl, rfl⟩
  | add => exact ⟨_, rfl, h.set (isNibble_emod _) .r0, .inl rfl, rfl⟩
  | sub => exact ⟨_, rfl, h.set (isNibble_emod _) .r0, .inl rfl, rfl⟩
  | inc r => exact ⟨_, rfl, h.set (isNibble_emod _) r, .inl (ip_set ..), steps_set ..⟩
  | dec r => exact ⟨_, rfl, h.set (isNibble_emod _) r, .inl (ip_set ..), steps_set ..⟩
  | bell => exact ⟨_, rfl, h.of_eq rfl rfl rfl, .inl rfl, rfl⟩
  | print => exact ⟨_, rfl, h.of_eq rfl rfl rfl, .inl rfl, rfl⟩
  | load r =>
    exact ⟨_, execute_load h.length_memory hn r, h.set (h.isNibble_getD _) r, .inl (ip_set ..),
      steps_set ..⟩
  | store r =>
    exact ⟨_, execute_store h.length_memory hn r, h.store (h.isNibble_get r) _, .inl rfl, rfl⟩
  | jump => exact ⟨_, rfl, h.of_eq rfl rfl rfl, .inr rfl, rfl⟩
  | jumpZero =>
    refine ⟨_, rfl, ?_⟩
    split
    · exact ⟨h.of_eq rfl rfl rfl, .inr rfl, rfl⟩
    · exact ⟨h, .inl rfl, rfl⟩
  | jumpNonzero =>
    refine ⟨_, rfl, ?_⟩
    split
    · exact ⟨h.of_eq rfl rfl rfl, .inr rfl, rfl⟩
    · exact ⟨h, .inl rfl, rfl⟩

/-- The number in the cell after the pointer's. Beyond the last cell it is zero. -/
def operand (m : Machine) : Int :=
  m.memory.getD (m.ip.toNat + 1) 0

theorem Valid.isNibble_operand (h : m.Valid) : IsNibble m.operand :=
  h.isNibble_getD _

theorem execute_of_not_takesOperand {op : Opcode} (h : Opcode.takesOperand op.code = false)
    (m : Machine) (n n' : Int) : m.execute op n = m.execute op n' := by
  cases op with
  | load r | store r => cases r <;> cases h
  | print | jump | jumpZero | jumpNonzero => cases h
  | _ => rfl

theorem Valid.step_eq {address : Nat} (h : m.Valid) (hip : m.ip = address)
    (hlt : address < memorySize) :
    ∃ op : Opcode, m.memory[address]? = some (op.code : Int) ∧ m.step =
      (Machine.execute { m with ip := address + Opcode.stride op.code } op m.operand).map tick := by
  have hlt' : address < m.memory.length := h.length_memory.symm ▸ hlt
  have hcell : m.memory[address]? = some m.memory[address] := List.getElem?_eq_getElem hlt'
  obtain ⟨op, hop⟩ := Opcode.exists_of_isNibble (h.memory _ (List.mem_of_getElem? hcell))
  rw [hop] at hcell
  refine ⟨op, hcell, ?_⟩
  cases ht : Opcode.takesOperand op.code with
  | false =>
    rw [step_of_plain h.length_memory hip hcell ht, Opcode.stride, ht,
      execute_of_not_takesOperand ht _ 0]
    rfl
  | true =>
    have hplace : m.ip.toNat = address := by omega
    rw [Opcode.stride, ht, operand, hplace, List.getD_eq_getElem?_getD]
    cases hn : m.memory[address + 1]? with
    | some n => exact step_of_operand h.length_memory hip hcell hn ht
    | none =>
      -- the opcode is in the last cell
      have hend : ¬ ((address : Int) + 1 < memorySize) := by
        have hle := List.getElem?_eq_none_iff.mp hn
        rw [h.length_memory] at hle
        omega
      have hf : fetch { m with ip := address + 1 } = .ok (0, { m with ip := address + 2 }) := by
        simp only [fetch, hend, if_false, Int.add_assoc, Int.reduceAdd]
      rw [step_eq_perform h.length_memory hip hcell, perform, ht, Opcode.ofCode?_code]
      simp [hf, bind, Except.bind]

/--
A valid machine whose pointer is in memory, on the end of it, or one cell further, where an
opcode in the last cell leaves it if it takes an operand.
-/
structure InBounds (m : Machine) : Prop extends Valid m where
  ip_nonneg : 0 ≤ m.ip
  ip_le : m.ip ≤ memorySize + 1

theorem inBounds_boot {memory : List Int} (hl : memory.length = memorySize)
    (hw : ∀ n ∈ memory, IsNibble n) (style : BellStyle) : (boot memory style).InBounds where
  length_memory := hl
  memory := hw
  r0 := (by decide : IsNibble 0)
  r1 := (by decide : IsNibble 0)
  ip_nonneg := Int.le_refl 0
  ip_le := (by decide : (0 : Int) ≤ memorySize + 1)

theorem step_of_end (h : memorySize ≤ m.ip) :
    m.step = .ok ({ m with halted := true }.emit .newline).tick := by
  simp only [step, Int.not_lt.mpr h, if_false]
  rfl

/-- The opcode that the next step executes. Past the end of the memory it is a halt. -/
def next? (m : Machine) : Option Opcode :=
  if m.ip < memorySize then entry? m.memory m.ip >>= Opcode.ofCode? else some .halt

/-- A step within bounds executes an opcode, and moves the pointer past it if it is in memory. -/
theorem InBounds.step_eq (h : m.InBounds) : ∃ (op : Opcode) (place : Int), m.next? = some op ∧
    (m.ip < memorySize ∧ place = m.ip + Opcode.stride op.code ∨
      memorySize ≤ m.ip ∧ place = m.ip ∧ op = .halt) ∧
    m.step = (Machine.execute { m with ip := place } op m.operand).map tick := by
  obtain ⟨address, hip⟩ := Int.eq_ofNat_of_zero_le h.ip_nonneg
  rcases Nat.lt_or_ge address memorySize with hlt | hge
  · obtain ⟨op, hcell, hs⟩ := h.toValid.step_eq hip hlt
    have hlt' : m.ip < memorySize := by omega
    have hnext : m.next? = some op := by
      rw [next?, if_pos hlt', hip, entry?, position?_natCast (h.length_memory.symm ▸ hlt),
        Option.bind_some, hcell, Option.bind_eq_bind, Option.bind_some, Opcode.ofCode?_code]
    exact ⟨op, _, hnext, .inl ⟨hlt', rfl⟩, by rw [hip]; exact hs⟩
  · have hge' : memorySize ≤ m.ip := by omega
    exact ⟨.halt, m.ip, if_neg (Int.not_lt.mpr hge'), .inr ⟨hge', rfl, rfl⟩, step_of_end hge'⟩

theorem InBounds.exists_execute_of_step {m' : Machine} (h : m.InBounds) (hs : m.step = .ok m') :
    ∃ (op : Opcode) (place : Int) (m₁ : Machine), m.next? = some op ∧
      (m.ip < memorySize ∧ place = m.ip + Opcode.stride op.code ∨
        memorySize ≤ m.ip ∧ place = m.ip ∧ op = .halt) ∧
      Machine.execute { m with ip := place } op m.operand = .ok m₁ ∧ m' = m₁.tick := by
  obtain ⟨op, place, hnext, hplace, he⟩ := h.step_eq
  obtain ⟨m₁, hm₁, htick⟩ := map_eq_ok_iff.mp (he.symm.trans hs)
  exact ⟨op, place, m₁, hnext, hplace, hm₁, htick.symm⟩

/-- Every step keeps the machine within bounds, also after it has halted. -/
theorem InBounds.step (h : m.InBounds) :
    ∃ m', m.step = .ok m' ∧ m'.InBounds ∧ m'.steps = m.steps + 1 := by
  obtain ⟨op, place, -, hplace, hs⟩ := h.step_eq
  have hv : Valid { m with ip := place } := h.of_eq rfl rfl rfl
  obtain ⟨m', hm, hv', hip, hsteps⟩ := hv.execute h.isNibble_operand op
  refine ⟨m'.tick, by rw [hs, hm]; rfl, ?_, congrArg (· + 1) hsteps⟩
  have hstride := Opcode.stride_le op.code
  obtain ⟨hlo, hhi⟩ := And.intro h.ip_nonneg h.ip_le
  obtain ⟨hnlo, hnhi⟩ := h.isNibble_operand
  unfold memorySize wordLimit at *
  have hbounds : 0 ≤ m'.ip ∧ m'.ip ≤ 16 + 1 := by
    rcases hip with hip | hip
    · change m'.ip = place at hip
      omega
    · omega
  exact ⟨hv'.of_eq rfl rfl rfl, hbounds.1, hbounds.2⟩

theorem InBounds.stepTimes (h : m.InBounds) (n : Nat) :
    ∃ m', m.stepTimes n = .ok m' ∧ m'.InBounds ∧ m'.steps = m.steps + n := by
  induction n generalizing m with
  | zero => exact ⟨m, rfl, h, (Int.add_zero _).symm⟩
  | succ n ih =>
    obtain ⟨m₁, hs, h₁, hsteps₁⟩ := h.step
    obtain ⟨m₂, hn, h₂, hsteps₂⟩ := ih h₁
    refine ⟨m₂, by rw [Machine.stepTimes, hs]; exact hn, h₂, ?_⟩
    rw [hsteps₂, hsteps₁]
    omega

theorem InBounds.of_step {m' : Machine} (h : m.InBounds) (hs : m.step = .ok m') :
    m'.InBounds := by
  obtain ⟨_, hs', h', -⟩ := h.step
  cases hs.symm.trans hs'
  exact h'

theorem InBounds.of_stepTimes {m' : Machine} {k : Nat} (h : m.InBounds)
    (hm : m.stepTimes k = .ok m') : m'.InBounds ∧ m'.steps = m.steps + k := by
  obtain ⟨_, hm', h', hsteps⟩ := h.stepTimes k
  cases hm.symm.trans hm'
  exact ⟨h', hsteps⟩

/--
A bounded run does its steps one by one. It ends as soon as the machine has halted, and otherwise
leaves it not halted after all of them.
-/
theorem InBounds.runFor (h : m.InBounds) (n : Nat) : ∃ k m', k ≤ n ∧ m.stepTimes k = .ok m' ∧
    (m'.halted ∧ m.runFor n = (.halted, m') ∨
      ¬ m'.halted ∧ k = n ∧ m.runFor n = (.unfinished, m')) := by
  induction n generalizing m with
  | zero =>
    by_cases hh : m.halted
    · exact ⟨0, m, Nat.le_refl 0, rfl, .inl ⟨hh, runFor_of_halted hh 0⟩⟩
    · exact ⟨0, m, Nat.le_refl 0, rfl, .inr ⟨hh, rfl, runFor_zero hh⟩⟩
  | succ n ih =>
    by_cases hh : m.halted
    · exact ⟨0, m, Nat.zero_le _, rfl, .inl ⟨hh, runFor_of_halted hh _⟩⟩
    · obtain ⟨m₁, hs, h₁, -⟩ := h.step
      obtain ⟨k, m', hk, hm, hend⟩ := ih h₁
      refine ⟨k + 1, m', Nat.succ_le_succ hk, by rw [Machine.stepTimes, hs]; exact hm, ?_⟩
      rw [runFor_succ hh hs]
      apply hend.imp_right
      rintro ⟨hn, he, hr⟩
      exact ⟨hn, congrArg (· + 1) he, hr⟩

theorem runFor_of_le {n n' : Nat} {m' : Machine} (h : m.runFor n = (.halted, m')) (hle : n ≤ n') :
    m.runFor n' = (.halted, m') := by
  induction n generalizing m n' with
  | zero =>
    by_cases hh : m.halted
    · rw [runFor_of_halted hh] at h ⊢
      exact h
    · rw [runFor_zero hh] at h
      cases h
  | succ n ih =>
    by_cases hh : m.halted
    · rw [runFor_of_halted hh] at h ⊢
      exact h
    · obtain ⟨d, rfl⟩ := Nat.exists_eq_add_of_le hle
      rw [Nat.add_right_comm]
      cases hs : m.step with
      | error m₁ => simp [runFor, hh, hs] at h
      | ok m₁ =>
        rw [runFor_succ hh hs] at h ⊢
        exact ih h (Nat.le_add_right n d)

theorem inBounds_boot_of_load {text : String} {memory : List Int} (style : BellStyle)
    (h : Program.load text = .ok memory) : (boot memory style).InBounds := by
  obtain ⟨words, hlen, hall, rfl⟩ := Program.words_of_load h
  apply inBounds_boot
  · rw [List.length_map, hlen]
  · intro n hn
    obtain ⟨v, hv, rfl⟩ := List.mem_map.mp hn
    exact isNibble_natCast_iff.mpr (Nat.lt_succ_of_le (hall v hv))

/--
A machine that runs a loaded program stays within bounds for any number of steps, and counts them.
Its run under a limit ends as it halts or as it has done the steps of the limit, and without a
limit it ends as it halts or goes on for ever.
-/
theorem inBounds_of_load {text : String} {memory : List Int} (style : BellStyle)
    (h : Program.load text = .ok memory) :
    (∀ n : Nat, ∃ m, (boot memory style).stepTimes n = .ok m ∧ m.InBounds ∧ m.steps = n) ∧
      (∀ limit : Option Int, ∃ k m, (boot memory style).stepTimes k = .ok m ∧
        (m.halted ∧ (boot memory style).run limit = (.halted, m) ∨
          ¬ m.halted ∧ (boot memory style).run limit = (.unfinished, m) ∧
            ∀ n, limit = some n → k = n.toNat)) ∧
      ((∃ k m, m.halted ∧ ∀ n, k ≤ n → (boot memory style).runFor n = (.halted, m)) ∨
        ∀ n, ∃ m, ¬ m.halted ∧ (boot memory style).runFor n = (.unfinished, m)) := by
  obtain ⟨words, hlen, hall, rfl⟩ := Program.words_of_load h
  have hboot : (boot (words.map Int.ofNat) style).InBounds := by
    apply inBounds_boot
    · rw [List.length_map, hlen]
    · intro n hn
      obtain ⟨v, hv, rfl⟩ := List.mem_map.mp hn
      exact isNibble_natCast_iff.mpr (Nat.lt_succ_of_le (hall v hv))
  have hzero : (boot (words.map Int.ofNat) style).steps = 0 := rfl
  generalize boot (words.map Int.ofNat) style = start at hboot hzero ⊢
  refine ⟨?_, ?_, ?_⟩
  · intro n
    obtain ⟨m, hm, hin, hsteps⟩ := hboot.stepTimes n
    exact ⟨m, hm, hin, by rw [hsteps, hzero, Int.zero_add]⟩
  · intro limit
    obtain ⟨n, hrun, hlimit⟩ : ∃ n, start.run limit = start.runFor n ∧
        ∀ l, limit = some l → n = l.toNat := by
      cases limit with
      | none => exact ⟨_, rfl, nofun⟩
      | some l =>
        refine ⟨l.toNat, ?_, fun _ hl => congrArg Int.toNat (Option.some.inj hl)⟩
        rw [run, hzero, Int.sub_zero]
    obtain ⟨k, m, -, hm, ⟨hh, hr⟩ | ⟨hh, rfl, hr⟩⟩ := hboot.runFor n
    · exact ⟨k, m, hm, .inl ⟨hh, hrun.trans hr⟩⟩
    · exact ⟨k, m, hm, .inr ⟨hh, hrun.trans hr, hlimit⟩⟩
  · by_cases hends : ∃ k m, m.halted ∧ start.runFor k = (.halted, m)
    · obtain ⟨k, m, hh, hr⟩ := hends
      exact .inl ⟨k, m, hh, fun n hn => runFor_of_le hr hn⟩
    · refine .inr fun n => ?_
      obtain ⟨k, m, -, hm, ⟨hh, hr⟩ | ⟨hh, -, hr⟩⟩ := hboot.runFor n
      · exact absurd ⟨n, m, hh, hr⟩ hends
      · exact ⟨m, hh, hr⟩

/-- A program that puts a print into its last cell, so that the operand lies beyond. -/
theorem inBounds_of_load_last_cell :
    let memory : List Int := [3, 3, 3, 3, 3, 3, 3, 3, 11, 15, 1, 1, 1, 1, 1, 0]
    Program.load "3 3 3 3 3 3 3 3 11 15 1 1 1 1 1" = .ok memory ∧
      (∀ n : Nat, ∃ m, (boot memory .ring).stepTimes n = .ok m ∧ m.InBounds ∧ m.steps = n) ∧
      (∀ limit : Option Int, ∃ k m, (boot memory .ring).stepTimes k = .ok m ∧
        (m.halted ∧ (boot memory .ring).run limit = (.halted, m) ∨
          ¬ m.halted ∧ (boot memory .ring).run limit = (.unfinished, m) ∧
            ∀ n, limit = some n → k = n.toNat)) ∧
      ((∃ k m, m.halted ∧ ∀ n, k ≤ n → (boot memory .ring).runFor n = (.halted, m)) ∨
        ∀ n, ∃ m, ¬ m.halted ∧ (boot memory .ring).runFor n = (.unfinished, m)) := by
  intro memory
  have h : Program.load "3 3 3 3 3 3 3 3 11 15 1 1 1 1 1" = .ok memory := by rfl
  exact ⟨h, inBounds_of_load .ring h⟩

end Machine

end Nibble
