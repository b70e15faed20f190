import Nibble.Proofs.Running

/-! # What a machine has done before

The steps that a machine has counted and the signals that it has sent do not bear on what it does
next. Two machines with the same pointer, registers and memory therefore go on alike.
-/

namespace Nibble

namespace Machine

/-- What the next steps of a machine depend on. -/
def state (m : Machine) : Int × Int × Int × List Int :=
  (m.ip, m.r0, m.r1, m.memory)

def fresh (m : Machine) : Machine :=
  { m with steps := 0, output := #[] }

/-- The machine, if another one has counted and sent what came before, and rings the bell. -/
def following (m past : Machine) : Machine :=
  { m with
    steps := past.steps + m.steps, output := past.output ++ m.output, bellStyle := past.bellStyle }

variable {m m' n : Machine}

theorem following_set (m past : Machine) (r : Register) (value : Int) :
    (m.set r value).following past = (m.following past).set r value := by
  cases r <;> rfl

theorem get_following (m past : Machine) (r : Register) : (m.following past).get r = m.get r := by
  cases r <;> rfl

theorem following_emit (m past : Machine) (signal : Signal) :
    (m.emit signal).following past = (m.following past).emit signal := by
  simp [following, emit]

theorem following_tick (m past : Machine) :
    m.tick.following past = (m.following past).tick := by
  simp [following, tick, Int.add_assoc]

theorem fresh_following (hs : m.state = n.state) (hh : m.halted = n.halted) :
    m.fresh.following n = n := by
  cases m
  cases n
  simp only [state, Prod.mk.injEq] at hs
  obtain ⟨rfl, rfl, rfl, rfl⟩ := hs
  cases hh
  simp [fresh, following]

theorem fetch_following {cell : Int} (past : Machine) (h : m.fetch = .ok (cell, m')) :
    (m.following past).fetch = .ok (cell, m'.following past) := by
  unfold fetch at h ⊢
  split at h
  next hip =>
    rw [if_pos (by exact hip)]
    split at h <;> cases h
    next hcell => simp [following, hcell]
  next hip =>
    rw [if_neg (by exact hip)]
    cases h
    rfl

theorem execute_following {op : Opcode} {operand : Int} (past : Machine)
    (h : m.execute op operand = .ok m') :
    (m.following past).execute op operand = .ok (m'.following past) := by
  cases op with
  | halt =>
    cases h
    exact congrArg Except.ok (following_emit { m with halted := true } past .newline).symm
  | bell | print =>
    cases h
    exact congrArg Except.ok (following_emit ..).symm
  | inc r | dec r =>
    cases h
    simp only [execute, get_following, following_set]
  | load r =>
    simp only [execute] at h ⊢
    split at h <;> cases h
    next hcell => rw [following_set, show entry? (m.following past).memory operand = _ from hcell]
  | store r =>
    simp only [execute, get_following] at h ⊢
    split at h <;> cases h
    next hmemory =>
      rw [show setEntry? (m.following past).memory operand _ = _ from hmemory]
      rfl
  | jumpZero | jumpNonzero =>
    cases h
    by_cases hz : m.r0 = 0 <;> simp [execute, following, hz]
  | add | sub | jump =>
    cases h
    rfl

theorem perform_following {cell : Int} (past : Machine) (h : m.perform cell = .ok m') :
    (m.following past).perform cell = .ok (m'.following past) := by
  unfold perform at h ⊢
  split at h
  next op hop =>
    split at h
    next ht =>
      obtain ⟨⟨operand, m₁⟩, hf, he⟩ := bind_eq_ok_iff.mp h
      rw [if_pos ht]
      exact bind_eq_ok_iff.mpr ⟨_, fetch_following past hf, execute_following past he⟩
    next ht =>
      rw [if_neg ht]
      exact execute_following past h
  next hop =>
    split at h
    next ht =>
      obtain ⟨⟨operand, m₁⟩, hf, he⟩ := bind_eq_ok_iff.mp h
      cases he
      rw [if_pos ht]
      exact bind_eq_ok_iff.mpr ⟨_, fetch_following past hf, rfl⟩
    next ht =>
      cases h
      rw [if_neg ht]
      rfl

/-- A step takes no notice of what came before. -/
theorem step_following (past : Machine) (h : m.step = .ok m') :
    (m.following past).step = .ok (m'.following past) := by
  unfold step at h ⊢
  split at h
  next hip =>
    rw [if_pos (by exact hip)]
    obtain ⟨⟨cell, m₁⟩, hf, h⟩ := bind_eq_ok_iff.mp h
    obtain ⟨m₂, hp, h⟩ := bind_eq_ok_iff.mp h
    cases h
    apply bind_eq_ok_iff.mpr
    refine ⟨_, fetch_following past hf, bind_eq_ok_iff.mpr ⟨_, perform_following past hp, ?_⟩⟩
    exact congrArg Except.ok (following_tick m₂ past).symm
  next hip =>
    rw [if_neg (by exact hip)]
    obtain ⟨m₂, he, h⟩ := bind_eq_ok_iff.mp h
    cases h
    apply bind_eq_ok_iff.mpr
    refine ⟨_, execute_following past he, ?_⟩
    exact congrArg Except.ok (following_tick m₂ past).symm

theorem stepTimes_following (past : Machine) {k : Nat} (h : m.stepTimes k = .ok m') :
    (m.following past).stepTimes k = .ok (m'.following past) := by
  induction k generalizing m with
  | zero =>
    cases h
    rfl
  | succ k ih =>
    obtain ⟨m₁, hs, h⟩ := bind_eq_ok_iff.mp h
    rw [stepTimes, step_following past hs]
    exact ih h

/-- Machines in the same state, both halted or neither, go on alike. -/
theorem InBounds.stepTimes_congr (h : m.InBounds) (hs : m.state = n.state)
    (hh : m.halted = n.halted) {k : Nat} (hm : m.stepTimes k = .ok m') :
    ∃ n', n.stepTimes k = .ok n' ∧ n'.state = m'.state ∧ n'.halted = m'.halted := by
  have hfresh : m.fresh.InBounds := ⟨h.of_eq rfl rfl rfl, h.ip_nonneg, h.ip_le⟩
  obtain ⟨c, hc, -⟩ := hfresh.stepTimes k
  have hm' := stepTimes_following m hc
  rw [fresh_following rfl rfl, hm] at hm'
  cases hm'
  refine ⟨c.following n, ?_, rfl, rfl⟩
  rw [← stepTimes_following n hc, fresh_following hs hh]

theorem halted_of_execute {op : Opcode} {operand : Int} (h : m.execute op operand = .ok m') :
    m'.halted ↔ m.halted ∨ op = .halt := by
  cases op with
  | load r =>
    simp only [execute] at h
    split at h <;> cases h
    cases r <;> simp [set]
  | store r =>
    simp only [execute] at h
    split at h <;> cases h
    simp
  | inc r | dec r =>
    cases h
    cases r <;> simp [set]
  | jumpZero | jumpNonzero =>
    cases h
    split <;> simp
  | _ =>
    cases h
    simp [emit]

theorem InBounds.halted_step (h : m.InBounds) (hh : m.halted) (hs : m.step = .ok m') :
    m'.halted := by
  obtain ⟨op, place, m₁, -, -, he, rfl⟩ := h.exists_execute_of_step hs
  exact (halted_of_execute he).mpr (.inl hh)

theorem InBounds.halted_stepTimes (h : m.InBounds) (hh : m.halted) {k : Nat}
    (hm : m.stepTimes k = .ok m') : m'.halted := by
  induction k generalizing m with
  | zero =>
    cases hm
    exact hh
  | succ k ih =>
    obtain ⟨m₁, hs, hm⟩ := bind_eq_ok_iff.mp hm
    exact ih (h.of_step hs) (h.halted_step hh hs) hm

end Machine

end Nibble
