import Nibble.Proofs.Halting

/-! # Straight-line execution

A step that takes no jump moves the pointer forward or halts. Without jumps the machine therefore
comes to a halt or to the end of the memory, whatever it stores into the cells ahead of it.
-/

namespace Nibble

namespace Machine

/-- Whether the next step takes a jump. -/
def Jumps (m : Machine) : Prop :=
  m.next? = some .jump ∨ m.next? = some .jumpZero ∧ m.r0 = 0 ∨
    m.next? = some .jumpNonzero ∧ m.r0 ≠ 0

instance (m : Machine) : Decidable m.Jumps := by
  unfold Jumps
  infer_instance

/-- None of the next `n` steps takes a jump, as far as the machine gets before it halts. -/
def Straight (m : Machine) (n : Nat) : Prop :=
  ∀ k < n, ∀ m' ∈ (m.stepTimes k).toOption, ¬ m'.halted → ¬ m'.Jumps

instance (m : Machine) (n : Nat) : Decidable (m.Straight n) := by
  unfold Straight
  infer_instance

variable {m m' : Machine} {op : Opcode} {operand : Int} {k n : Nat}

theorem ip_of_execute (h : m.execute op operand = .ok m')
    (hjump : ¬ (op = .jump ∨ op = .jumpZero ∧ m.r0 = 0 ∨ op = .jumpNonzero ∧ m.r0 ≠ 0)) :
    m'.ip = m.ip := by
  cases op with
  | load r =>
    simp only [execute] at h
    split at h <;> cases h
    exact ip_set ..
  | store r =>
    simp only [execute] at h
    split at h <;> cases h
    rfl
  | inc r | dec r =>
    cases h
    exact ip_set ..
  | jump => exact absurd (.inl rfl) hjump
  | jumpZero =>
    have hzero : m.r0 ≠ 0 := fun hz => hjump (.inr (.inl ⟨rfl, hz⟩))
    cases h
    rw [if_neg hzero]
  | jumpNonzero =>
    have hzero : ¬ m.r0 ≠ 0 := fun hz => hjump (.inr (.inr ⟨rfl, hz⟩))
    cases h
    rw [if_neg hzero]
  | _ =>
    cases h
    rfl

theorem InBounds.halted_or_lt_of_step (h : m.InBounds) (hjump : ¬ m.Jumps)
    (hs : m.step = .ok m') : m'.halted ∨ m.ip < memorySize ∧ m.ip < m'.ip := by
  obtain ⟨op, place, m₁, hnext, hplace, he, rfl⟩ := h.exists_execute_of_step hs
  rcases hplace with ⟨hlt, rfl⟩ | ⟨-, -, rfl⟩
  · right
    have hip : m₁.ip = m.ip + Opcode.stride op.code := by
      apply ip_of_execute he
      rwa [Jumps, hnext, Option.some_inj, Option.some_inj, Option.some_inj] at hjump
    have hpos := Opcode.stride_pos op.code
    refine ⟨hlt, ?_⟩
    change m.ip < m₁.ip
    omega
  · left
    exact (halted_of_execute he).mpr (.inr rfl)

theorem Straight.of_step (h : m.Straight (n + 1)) (hs : m.step = .ok m') : m'.Straight n := by
  intro k hk m₁ hm₁
  apply h (k + 1) (Nat.succ_lt_succ hk)
  rwa [stepTimes, hs]

theorem HaltsAt.of_step (hn : ¬ m.halted) (hs : m.step = .ok m') (h : m'.HaltsAt k) :
    m.HaltsAt (k + 1) := by
  obtain ⟨⟨m₁, hm₁, hh⟩, hbefore⟩ := h
  refine ⟨⟨m₁, by rwa [stepTimes, hs], hh⟩, ?_⟩
  rintro (_ | j) hj
  · exact ⟨m, rfl, hn⟩
  · rw [stepTimes, hs]
    exact hbefore j (Nat.lt_of_succ_lt_succ hj)

/-- A step without a jump is the last one, or leaves fewer cells to go. -/
theorem InBounds.haltsAt_one_or_forward (h : m.InBounds) (hn : ¬ m.halted) (hjump : ¬ m.Jumps) :
    m.HaltsAt 1 ∨ m.ip < memorySize ∧
      ∃ m', m.step = .ok m' ∧ m'.InBounds ∧ ¬ m'.halted ∧ m.ip < m'.ip := by
  obtain ⟨m', hs, h', -⟩ := h.step
  by_cases hh : m'.halted
  · left
    exact .of_step hn hs ⟨⟨m', rfl, hh⟩, nofun⟩
  · right
    obtain ⟨hlt, hforward⟩ := (h.halted_or_lt_of_step hjump hs).resolve_left hh
    exact ⟨hlt, m', hs, h', hh, hforward⟩

/-- Without a jump there is a halt among the steps that the cells up to the end of the memory could
take one by one, and the step at that end. -/
theorem InBounds.exists_haltsAt_of_straight (h : m.InBounds) (hn : ¬ m.halted)
    (hend : memorySize ≤ m.ip + n) (hs : m.Straight (n + 1)) :
    ∃ k ≤ n + 1, m.HaltsAt k := by
  induction n generalizing m with
  | zero =>
    have hjump : ¬ m.Jumps := hs 0 (Nat.succ_pos _) m rfl hn
    rcases h.haltsAt_one_or_forward hn hjump with hhalts | ⟨hlt, -⟩
    · exact ⟨1, Nat.le_refl 1, hhalts⟩
    · omega
  | succ n ih =>
    have hjump : ¬ m.Jumps := hs 0 (Nat.succ_pos _) m rfl hn
    rcases h.haltsAt_one_or_forward hn hjump with hhalts | ⟨-, m', hstep, h', hn', hlt⟩
    · exact ⟨1, Nat.succ_le_succ (Nat.zero_le _), hhalts⟩
    · obtain ⟨k, hk, hhalts⟩ := ih h' hn' (by omega) (hs.of_step hstep)
      exact ⟨k + 1, Nat.succ_le_succ hk, .of_step hn hstep hhalts⟩

/--
A machine that runs a loaded program and takes no jump halts before it could have executed each of
the cells that are left and the end of the memory. From the start, these are seventeen steps.
-/
theorem exists_haltsAt_of_load {text : String} {memory : List Int} (style : BellStyle)
    (h : Program.load text = .ok memory) :
    let start := boot memory style
    (∀ i m, start.stepTimes i = .ok m → ¬ m.halted →
      m.Straight (max 1 (memorySize + 1 - m.ip).toNat) →
        ∃ k ≤ max 1 (memorySize + 1 - m.ip).toNat, m.HaltsAt k) ∧
      (start.Straight (memorySize + 1) → ∃ k ≤ memorySize + 1, start.HaltsAt k ∧
        ∃ m, m.halted ∧ ∀ limit : Int, k ≤ limit → start.run (some limit) = (.halted, m)) := by
  intro start
  have hboot : start.InBounds := inBounds_boot_of_load style h
  constructor
  · intro i m hm hn hs
    have hm' := (hboot.of_stepTimes hm).1
    obtain ⟨n, hsum⟩ : ∃ n, max 1 (memorySize + 1 - m.ip).toNat = n + 1 :=
      Nat.exists_eq_succ_of_ne_zero (by omega)
    rw [hsum] at hs ⊢
    exact hm'.exists_haltsAt_of_straight hn (by omega) hs
  · intro hs
    have hend : memorySize ≤ start.ip + memorySize := Int.le_of_eq (Int.zero_add _).symm
    obtain ⟨k, hk, hhalts⟩ := hboot.exists_haltsAt_of_straight nofun hend hs
    obtain ⟨m, hm, hh⟩ := hhalts.1
    refine ⟨k, hk, hhalts, m, hh, ?_⟩
    intro limit hle
    rw [run_boot_some]
    exact hboot.runFor_of_haltsAt hhalts hm (by omega)

/-- A program that puts a halt in the place of the jump that it comes to. -/
theorem exists_haltsAt_of_load_overwritten :
    let memory : List Int := [12, 2, 13, 0, 0, 0, 0, 0, 0, 0, 0, 0, 0, 0, 0, 0]
    let start := boot memory .ring
    let stored : Machine :=
      { start with
        ip := 2, steps := 1, memory := [12, 2, 0, 0, 0, 0, 0, 0, 0, 0, 0, 0, 0, 0, 0, 0] }
    Program.load "12 2 13" = .ok memory ∧ start.stepTimes 1 = .ok stored ∧ ¬ stored.halted ∧
      stored.Straight (max 1 (memorySize + 1 - stored.ip).toNat) ∧
      (∃ k ≤ max 1 (memorySize + 1 - stored.ip).toNat, stored.HaltsAt k) ∧
      start.Straight (memorySize + 1) ∧ ∃ k ≤ memorySize + 1, start.HaltsAt k ∧
        ∃ m, m.halted ∧ ∀ limit : Int, k ≤ limit → start.run (some limit) = (.halted, m) := by
  intro memory start stored
  have h : Program.load "12 2 13" = .ok memory := by rfl
  have hstored : start.stepTimes 1 = .ok stored := by rfl
  have hrest : stored.Straight (max 1 (memorySize + 1 - stored.ip).toNat) := by decide
  have hall : start.Straight (memorySize + 1) := by decide
  obtain ⟨hreached, hrun⟩ := exists_haltsAt_of_load .ring h
  exact ⟨h, hstored, nofun, hrest, hreached 1 stored hstored nofun hrest, hall, hrun hall⟩

end Machine

end Nibble
