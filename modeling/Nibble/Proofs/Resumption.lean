import Nibble.Proofs.Halting

/-! # Limits and resumed runs

A limit counts all the steps of a machine, also those of earlier runs. A run that a limit has cut
short can therefore be taken up where it stands, with the outcome of a run that was never cut.
-/

namespace Nibble

namespace Machine

variable {m m' left : Machine} {n : Nat} {N M : Int}

theorem run_of_halted (h : m.halted) (limit : Option Int) : m.run limit = (.halted, m) := by
  cases limit <;> exact runFor_of_halted h _

namespace InBounds

theorem runFor_add (h : m.InBounds) (hm : m.stepTimes n = .ok m') (hn : ¬ m'.halted) (d : Nat) :
    m.runFor (n + d) = m'.runFor d := by
  induction n generalizing m with
  | zero =>
    cases hm
    rw [Nat.zero_add]
  | succ n ih =>
    have hnot : ¬ m.halted := h.not_halted_of_le (Nat.zero_le _) rfl hm hn
    obtain ⟨m₁, hs, hrest⟩ := bind_eq_ok_iff.mp hm
    rw [Nat.add_right_comm, runFor_succ hnot hs]
    exact ih (h.of_step hs) hrest

/-- A run that is cut short has done all the steps that it had left. -/
theorem exists_left (h : m.InBounds) (hr : (m.runFor n).1 ≠ .halted) :
    ∃ left, m.runFor n = (.unfinished, left) ∧ m.stepTimes n = .ok left ∧ ¬ left.halted := by
  obtain ⟨k, m', -, hk, ⟨-, hr'⟩ | ⟨hn, rfl, hr'⟩⟩ := h.runFor n
  · exact absurd (congrArg Prod.fst hr') hr
  · exact ⟨m', hr', hk, hn⟩

/-- The limit is on the sum of the steps, so that of the second run is the same. -/
theorem run_left (h : m.InBounds) (hle : N ≤ M) (hm : m.stepTimes (N - m.steps).toNat = .ok left)
    (hn : ¬ left.halted) : left.run (some M) = m.run (some M) := by
  have hsum : (M - m.steps).toNat = (N - m.steps).toNat + (M - left.steps).toNat := by
    rw [(h.of_stepTimes hm).2]
    omega
  rw [run, run, hsum, h.runFor_add hm hn]

end InBounds

/--
A run of a loaded program under a limit ends if and only if the program halts at a step within
the limit, and then a greater limit and no limit give the same. Otherwise it leaves the machine
after the steps of the limit, and another run takes it to where a single run would have. A machine
that has halted is left alone.
-/
theorem run_limit_of_load {text : String} {memory : List Int} (style : BellStyle)
    (h : Program.load text = .ok memory) (hle : N ≤ M) :
    let start := boot memory style
    ((start.run (some N)).1 = .halted ↔ ∃ k : Nat, k ≤ N ∧ start.HaltsAt k) ∧
      ((start.run (some N)).1 = .halted →
        start.run (some M) = start.run (some N) ∧ start.run none = start.run (some N)) ∧
      ((start.run (some N)).1 ≠ .halted → ∃ left, start.run (some N) = (.unfinished, left) ∧
        start.stepTimes N.toNat = .ok left ∧ left.run (some M) = start.run (some M)) ∧
      ∀ (m : Machine) (limit : Option Int), m.halted → m.run limit = (.halted, m) := by
  intro start
  have hboot : start.InBounds := inBounds_boot_of_load style h
  have hrun : ∀ limit : Int, start.run (some limit) = start.runFor limit.toNat :=
    run_boot_some memory style
  refine ⟨?_, ?_, ?_, fun m limit hh => run_of_halted hh limit⟩
  · rw [hrun, hboot.runFor_eq_halted_iff]
    constructor
    · rintro ⟨k, hk, hhalts⟩
      refine ⟨k, ?_, hhalts⟩
      -- the machine has not halted before its first step, so a limit below one is not reached
      have hpos : k ≠ 0 := by
        rintro rfl
        obtain ⟨⟨_, ⟨⟩, ⟨⟩⟩, -⟩ := hhalts
      omega
    · rintro ⟨k, hk, hhalts⟩
      exact ⟨k, by omega, hhalts⟩
  · intro hr
    obtain ⟨k, hk, hhalts⟩ := hboot.runFor_eq_halted_iff.mp (hrun N ▸ hr)
    obtain ⟨m, hm, -⟩ := hhalts.1
    have hN : start.run (some N) = (.halted, m) :=
      (hrun N).trans (hboot.runFor_of_haltsAt hhalts hm hk)
    have hM : start.run (some M) = (.halted, m) :=
      (hrun M).trans (hboot.runFor_of_haltsAt hhalts hm (by omega))
    have hnone : start.run none = (.halted, m) :=
      hboot.runFor_of_haltsAt hhalts hm
        ((hboot.le_of_haltsAt hhalts).trans (stateCount_le_horizon hboot.length_memory))
    rw [hN]
    exact ⟨hM, hnone⟩
  · intro hr
    rw [hrun] at hr ⊢
    obtain ⟨left, hleft, hm, hn⟩ := hboot.exists_left hr
    have hsteps : (N - start.steps).toNat = N.toNat := congrArg Int.toNat (Int.sub_zero N)
    exact ⟨left, hleft, hm, hboot.run_left hle (hsteps.symm ▸ hm) hn⟩

/-- A program that rings the bell and halts, cut short in between. -/
theorem run_limit_of_load_bell :
    let memory : List Int := [7, 0, 0, 0, 0, 0, 0, 0, 0, 0, 0, 0, 0, 0, 0, 0]
    let start := boot memory .ring
    let left : Machine := { start with ip := 1, steps := 1, output := #[.bell] }
    let done : Machine :=
      { start with ip := 2, steps := 2, halted := true, output := #[.bell, .newline] }
    Program.load "7" = .ok memory ∧ (1 : Int) ≤ 2 ∧ start.run (some 1) = (.unfinished, left) ∧
      start.stepTimes 1 = .ok left ∧ left.run (some 2) = start.run (some 2) ∧
      start.run (some 2) = (.halted, done) ∧ start.run none = (.halted, done) ∧
      done.run (some 1) = (.halted, done) := by
  intro memory start left done
  have h : Program.load "7" = .ok memory := by rfl
  have hleft : start.run (some 1) = (.unfinished, left) := by rfl
  have hdone : start.run (some 2) = (.halted, done) := by rfl
  obtain ⟨-, -, hcut, hstay⟩ := run_limit_of_load .ring h (by decide : (1 : Int) ≤ 2)
  obtain ⟨left', hleft', hm, hresume⟩ := hcut (by rw [hleft]; decide)
  cases hleft'.symm.trans hleft
  obtain ⟨-, hends, -⟩ := run_limit_of_load .ring h (by decide : (2 : Int) ≤ 2)
  obtain ⟨-, hnone⟩ := hends (by rw [hdone])
  exact ⟨h, by decide, hleft, hm, hresume, hdone, hnone.trans hdone, hstay done (some 1) rfl⟩

end Machine

end Nibble
