import Mathlib.Data.Fintype.BigOperators
import Mathlib.Data.Fintype.Pigeonhole
import Nibble.Proofs.History

/-! # Bounded halting

A machine within bounds has finitely many states. If it does not halt before it could have been in
each of them, then it has come back to one of them, and it goes round for ever.
-/

namespace Nibble

namespace Machine

/-- The machine halts at its step number `k`, and not before. -/
def HaltsAt (m : Machine) (k : Nat) : Prop :=
  (∃ m', m.stepTimes k = .ok m' ∧ m'.halted) ∧
    ∀ j < k, ∃ m', m.stepTimes j = .ok m' ∧ ¬ m'.halted

def Endless (m : Machine) : Prop :=
  ∀ n, ∃ m', m.stepTimes n = .ok m' ∧ ¬ m'.halted

variable {m m' : Machine} {i j k n : Nat}

theorem Endless.not_haltsAt (h : m.Endless) : ¬ m.HaltsAt k := by
  rintro ⟨⟨m₁, h₁, hh⟩, -⟩
  obtain ⟨m₂, h₂, hn⟩ := h k
  cases h₁.symm.trans h₂
  exact hn hh

namespace InBounds

theorem not_halted_of_le (h : m.InBounds) {mᵢ mⱼ : Machine} (hle : i ≤ j)
    (hi : m.stepTimes i = .ok mᵢ) (hj : m.stepTimes j = .ok mⱼ) (hn : ¬ mⱼ.halted) :
    ¬ mᵢ.halted := by
  obtain ⟨d, rfl⟩ := Nat.exists_eq_add_of_le hle
  rw [stepTimes_add hi] at hj
  intro hh
  exact hn ((h.of_stepTimes hi).1.halted_stepTimes hh hj)

theorem runFor_of_not_halted (h : m.InBounds) (hm : m.stepTimes n = .ok m')
    (hn : ¬ m'.halted) : m.runFor n = (.unfinished, m') := by
  obtain ⟨k, m₁, hle, h₁, ⟨hh, -⟩ | ⟨-, rfl, hr⟩⟩ := h.runFor n
  · exact absurd hh (h.not_halted_of_le hle h₁ hm hn)
  · cases hm.symm.trans h₁
    exact hr

theorem runFor_of_haltsAt (h : m.InBounds) (hk : m.HaltsAt k) (hm : m.stepTimes k = .ok m')
    (hle : k ≤ n) : m.runFor n = (.halted, m') := by
  obtain ⟨⟨_, hm', hh⟩, hbefore⟩ := hk
  cases hm.symm.trans hm'
  refine runFor_of_le ?_ hle
  obtain ⟨i, m₁, hi, h₁, ⟨hh₁, hr⟩ | ⟨hn, rfl, -⟩⟩ := h.runFor k
  · rcases Nat.lt_or_eq_of_le hi with hlt | rfl
    · obtain ⟨m₂, h₂, hn₂⟩ := hbefore i hlt
      cases h₁.symm.trans h₂
      exact absurd hh₁ hn₂
    · cases hm.symm.trans h₁
      exact hr
  · cases hm.symm.trans h₁
    exact absurd hh hn

theorem endless_or_haltsAt (h : m.InBounds) : m.Endless ∨ ∃ k, m.HaltsAt k := by
  classical
  by_cases hex : ∃ k, ∃ m', m.stepTimes k = .ok m' ∧ m'.halted
  · refine .inr ⟨Nat.find hex, Nat.find_spec hex, ?_⟩
    intro j hlt
    obtain ⟨m', hm, -⟩ := h.stepTimes j
    exact ⟨m', hm, fun hh => Nat.find_min hex hlt ⟨m', hm, hh⟩⟩
  · refine .inl fun n => ?_
    obtain ⟨m', hm, -⟩ := h.stepTimes n
    exact ⟨m', hm, fun hh => hex ⟨n, m', hm, hh⟩⟩

theorem runFor_eq_halted_iff (h : m.InBounds) :
    (m.runFor n).1 = .halted ↔ ∃ k ≤ n, m.HaltsAt k := by
  constructor
  · intro hr
    obtain hend | ⟨k, hk⟩ := h.endless_or_haltsAt
    · obtain ⟨m', hm, hn⟩ := hend n
      rw [h.runFor_of_not_halted hm hn] at hr
      cases hr
    · refine ⟨k, Nat.le_of_not_lt fun hlt => ?_, hk⟩
      obtain ⟨m', hm, hn⟩ := hk.2 n hlt
      rw [h.runFor_of_not_halted hm hn] at hr
      cases hr
  · rintro ⟨k, hle, hk⟩
    obtain ⟨m', hm, -⟩ := hk.1
    rw [h.runFor_of_haltsAt hk hm hle]

/--
A state that comes back comes back for ever: what happens after the second time has happened after
the first.
-/
theorem endless_of_state_eq (h : m.InBounds) {mᵢ mⱼ : Machine} (hlt : i < j)
    (hi : m.stepTimes i = .ok mᵢ) (hj : m.stepTimes j = .ok mⱼ) (hn : ¬ mⱼ.halted)
    (hs : mᵢ.state = mⱼ.state) : m.Endless := by
  have hni : ¬ mᵢ.halted := h.not_halted_of_le (Nat.le_of_lt hlt) hi hj hn
  have hh : mᵢ.halted = mⱼ.halted :=
    (Bool.eq_false_iff.mpr hni).trans (Bool.eq_false_iff.mpr hn).symm
  intro n
  induction n using Nat.strong_induction_on with
  | _ n ih =>
    obtain ⟨mₙ, hm, -⟩ := h.stepTimes n
    refine ⟨mₙ, hm, ?_⟩
    rcases Nat.le_total n j with hle | hle
    · exact h.not_halted_of_le hle hm hj hn
    · obtain ⟨e, rfl⟩ := Nat.exists_eq_add_of_le hle
      obtain ⟨m₁, h₁, hn₁⟩ := ih (i + e) (Nat.add_lt_add_right hlt e)
      rw [stepTimes_add hi] at h₁
      obtain ⟨m₂, h₂, -, hhalted⟩ := (h.of_stepTimes hi).1.stepTimes_congr hs hh h₁
      rw [stepTimes_add hj] at hm
      cases hm.symm.trans h₂
      rwa [hhalted]

end InBounds

/-- The number of states within bounds: eighteen places of the pointer, and a word in each of
sixteen cells and two registers. -/
def stateCount : Nat :=
  18 * 16 ^ 18

def words (m : Machine) : List Int :=
  m.r0 :: m.r1 :: m.memory

/-- The state of a machine within bounds as one of finitely many. -/
def key (m : Machine) : Fin 18 × (Fin 18 → Fin 16) :=
  (Fin.ofNat 18 m.ip.toNat, fun i => Fin.ofNat 16 (m.words.getD i 0).toNat)

theorem Valid.length_words (h : m.Valid) : m.words.length = 18 :=
  congrArg (· + 2) h.length_memory

theorem Valid.isNibble_words (h : m.Valid) : ∀ n ∈ m.words, IsNibble n :=
  List.forall_mem_cons.mpr ⟨h.r0, List.forall_mem_cons.mpr ⟨h.r1, h.memory⟩⟩

theorem Valid.words_eq_of_key {n : Machine} (hm : m.Valid) (hn : n.Valid)
    (h : m.key.2 = n.key.2) : m.words = n.words := by
  refine List.ext_getElem (hm.length_words.trans hn.length_words.symm) ?_
  intro i hi hi'
  have hlt : i < 18 := hm.length_words ▸ hi
  have hword := congrArg Fin.val (congrFun h ⟨i, hlt⟩)
  simp only [key, List.getD_eq_getElem?_getD, List.getElem?_eq_getElem hi,
    List.getElem?_eq_getElem hi', Option.getD_some, Fin.val_ofNat] at hword
  obtain ⟨a, ha, hm'⟩ := (hm.isNibble_words _ (List.getElem_mem hi)).exists_nat
  obtain ⟨b, hb, hn'⟩ := (hn.isNibble_words _ (List.getElem_mem hi')).exists_nat
  unfold memorySize at ha hb
  omega

namespace InBounds

theorem state_eq_of_key {n : Machine} (hm : m.InBounds) (hn : n.InBounds)
    (h : m.key = n.key) : m.state = n.state := by
  have hip : m.ip = n.ip := by
    have hplace : m.ip.toNat % 18 = n.ip.toNat % 18 := congrArg (Fin.val ∘ Prod.fst) h
    obtain ⟨hm₀, hm₁⟩ := And.intro hm.ip_nonneg hm.ip_le
    obtain ⟨hn₀, hn₁⟩ := And.intro hn.ip_nonneg hn.ip_le
    unfold memorySize at hm₁ hn₁
    omega
  have hwords := hm.toValid.words_eq_of_key hn.toValid (congrArg Prod.snd h)
  simp only [words, List.cons.injEq] at hwords
  obtain ⟨h₀, h₁, hmemory⟩ := hwords
  simp only [state, hip, h₀, h₁, hmemory]

/-- After more steps than there are states, a machine that has not halted was in one of them
twice. -/
theorem endless_of_stateCount_le (h : m.InBounds) (hle : stateCount ≤ n)
    (hm : m.stepTimes n = .ok m') (hn : ¬ m'.halted) : m.Endless := by
  choose machine hsteps hin _ using h.stepTimes
  have hcard : Fintype.card (Fin 18 × (Fin 18 → Fin 16)) < Fintype.card (Fin (n + 1)) := by
    rw [Fintype.card_prod, Fintype.card_pi_const, Fintype.card_fin, Fintype.card_fin,
      Fintype.card_fin]
    exact Nat.lt_succ_of_le hle
  obtain ⟨i, j, hne, hkey⟩ :=
    Fintype.exists_ne_map_eq_of_card_lt (fun i : Fin (n + 1) => (machine i).key) hcard
  wlog hlt : i < j generalizing i j
  · exact this j i hne.symm hkey.symm (lt_of_le_of_ne (le_of_not_gt hlt) hne.symm)
  have hnj := h.not_halted_of_le (Nat.le_of_lt_succ j.isLt) (hsteps j) hm hn
  exact h.endless_of_state_eq hlt (hsteps i) (hsteps j) hnj ((hin i).state_eq_of_key (hin j) hkey)

theorem le_of_haltsAt (h : m.InBounds) (hk : m.HaltsAt k) : k ≤ stateCount := by
  by_contra hlt
  obtain ⟨m', hm, hn⟩ := hk.2 stateCount (Nat.lt_of_not_le hlt)
  exact (h.endless_of_stateCount_le (Nat.le_refl _) hm hn).not_haltsAt hk

end InBounds

theorem stateCount_le_horizon (hl : m.memory.length = memorySize) : stateCount ≤ m.horizon := by
  have hle : stateCount ≤
      (memorySize + memorySize + 1) *
        Nat.pow (memorySize + 2 + wordModulus) (memorySize + 2) := by
    decide
  unfold horizon
  rw [hl]
  exact hle

theorem InBounds.run_none_eq_halted_iff (h : m.InBounds) :
    (m.run none).1 = .halted ↔ ∃ k, m.HaltsAt k := by
  rw [run, h.runFor_eq_halted_iff]
  constructor
  · rintro ⟨k, -, hk⟩
    exact ⟨k, hk⟩
  · rintro ⟨k, hk⟩
    exact ⟨k, (h.le_of_haltsAt hk).trans (stateCount_le_horizon h.length_memory), hk⟩

theorem run_boot_some (memory : List Int) (style : BellStyle) (limit : Int) :
    (boot memory style).run (some limit) = (boot memory style).runFor limit.toNat := by
  have hsteps : (boot memory style).steps = 0 := rfl
  rw [run, hsteps, Int.sub_zero]

/--
A loaded program that does not halt within as many steps as there are states never halts, and
neither does one that comes back to a state before it has halted. A run without a limit ends if
and only if the program halts, which is if and only if a run with that limit ends.
-/
theorem halting_bounded_of_load {text : String} {memory : List Int} (style : BellStyle)
    (h : Program.load text = .ok memory) :
    let start := boot memory style
    ((∀ k ≤ stateCount, ¬ start.HaltsAt k) → start.Endless) ∧
      (∀ i j mᵢ mⱼ, i ≠ j → start.stepTimes i = .ok mᵢ → start.stepTimes j = .ok mⱼ →
        ¬ mᵢ.halted → ¬ mⱼ.halted → mᵢ.state = mⱼ.state → start.Endless) ∧
      ((start.run none).1 = .halted ↔ ∃ k, start.HaltsAt k) ∧
      ((start.run none).1 = .halted ↔ (start.run (some stateCount)).1 = .halted) := by
  intro start
  have hboot : start.InBounds := inBounds_boot_of_load style h
  refine ⟨?_, ?_, hboot.run_none_eq_halted_iff, ?_⟩
  · intro hnone
    obtain hend | ⟨k, hk⟩ := hboot.endless_or_haltsAt
    · exact hend
    · exact absurd hk (hnone k (hboot.le_of_haltsAt hk))
  · intro i j mᵢ mⱼ hne hi hj hni hnj hs
    rcases Nat.lt_or_gt_of_ne hne with hlt | hgt
    · exact hboot.endless_of_state_eq hlt hi hj hnj hs
    · exact hboot.endless_of_state_eq hgt hj hi hni hs.symm
  · rw [hboot.run_none_eq_halted_iff, run_boot_some, Int.toNat_natCast, hboot.runFor_eq_halted_iff]
    constructor
    · rintro ⟨k, hk⟩
      exact ⟨k, hboot.le_of_haltsAt hk, hk⟩
    · rintro ⟨k, -, hk⟩
      exact ⟨k, hk⟩

/-- A program that rings the bell again and again. -/
theorem halting_bounded_of_load_bell :
    let memory : List Int := [7, 13, 0, 0, 0, 0, 0, 0, 0, 0, 0, 0, 0, 0, 0, 0]
    let start := boot memory .ring
    let rung : Machine := { start with steps := 2, output := #[.bell] }
    Program.load "7 13" = .ok memory ∧ start.stepTimes 0 = .ok start ∧
      start.stepTimes 2 = .ok rung ∧ start.state = rung.state ∧ start.Endless ∧
      (start.run none).1 ≠ .halted ∧ (start.run (some stateCount)).1 ≠ .halted := by
  intro memory start rung
  have h : Program.load "7 13" = .ok memory := by rfl
  have hrung : start.stepTimes 2 = .ok rung := by rfl
  obtain ⟨-, hrepeat, hnone, hbound⟩ := halting_bounded_of_load .ring h
  have hend : start.Endless :=
    hrepeat 0 2 start rung (by decide) rfl hrung (by decide) (by decide) rfl
  have hrun : (start.run none).1 ≠ .halted := by
    intro hr
    obtain ⟨k, hk⟩ := hnone.mp hr
    exact hend.not_haltsAt hk
  exact ⟨h, rfl, hrung, rfl, hend, hrun, fun hr => hrun (hbound.mpr hr)⟩

end Machine

end Nibble
