import Nibble.Proofs.Interpreter

/-! # Simulation

The machine that starts on the memory of an assembled text does what the interpreter does with the
script of the text. The code may change itself only in the operands that registers are printed
through, and these are written before they are read.
-/

namespace Nibble

theorem isPrefix_drop_set {α : Type} {piece memory : List α} {a i : Nat}
    (h : piece <+: memory.drop a) (hi : i < a ∨ a + piece.length ≤ i) (x : α) :
    piece <+: (memory.set i x).drop a := by
  obtain ⟨tail, ht⟩ := h
  rw [List.drop_set]
  split
  · exact ⟨tail, ht⟩
  · rw [← ht, List.set_append_right _ _ (by omega)]
    exact List.prefix_append ..

namespace Script

def value (p : Script) (name : String) : Int :=
  ((p.find? name).map p.address).getD 0

def resolved (p : Script) (c : Command Argument) : Command Int :=
  c.map (Argument.value p.value)

/-- A script whose data do not take the cell after the code, and whose names stand for something. -/
structure Placed (p : Script) : Prop where
  linked : p.Linked
  fits : p.size + p.data.length ≤ memorySize
  gap : p.size + p.data.length < memorySize ∨ p.data = []
  datum_lt : ∀ name j, p.find? name = some (.datum j) → j < p.data.length
  bound : ∀ (k : Nat) (c : Command Argument) name, p.commands[k]? = some c →
    .inr (.symbol name) ∈ c.terms → ∃ r, p.find? name = some r

/-- A memory in which the commands stand, apart from what they change, with a halt after them. -/
structure Resident (p : Script) (memory : List Int) : Prop where
  length_memory : memory.length = memorySize
  code : ∀ k c, p.commands[k]? = some c →
    (p.resolved c).stable (p.start k) <+: memory.drop (p.start k)
  gap : p.size < memorySize → memory[p.size]? = some 0

variable {p : Script} {memory : List Int} {k : Nat} {c : Command Argument}

theorem length_stable_le (p : Script) (c : Command Argument) (address : Nat) :
    ((p.resolved c).stable address).length ≤ c.size := by
  have h := ((p.resolved c).stable_isPrefix address).length_le
  rwa [Command.length_emit, resolved, Command.size_map] at h

theorem Resident.set (h : p.Resident memory) {i : Nat} (x : Int) (hgap : i ≠ p.size)
    (hcode : ∀ k c, p.commands[k]? = some c →
      i < p.start k ∨ p.start k + ((p.resolved c).stable (p.start k)).length ≤ i) :
    p.Resident (memory.set i x) where
  length_memory := by rw [List.length_set, h.length_memory]
  code k c hc := isPrefix_drop_set (h.code k c hc) (hcode k c hc) x
  gap hlt := by rw [List.getElem?_set_ne hgap, h.gap hlt]

theorem Resident.set_datum (hp : p.Placed) (h : p.Resident memory) {j : Nat}
    (hj : j < p.data.length) (x : Int) : p.Resident (memory.set (memorySize - 1 - j) x) := by
  have hfits := hp.fits
  have hgap : p.size < memorySize - 1 - j := by
    rcases hp.gap with hgap | hnil
    · omega
    · rw [hnil] at hj
      cases hj
  apply h.set x (Nat.ne_of_gt hgap)
  intro k c hc
  have hle := start_add_size_le hc
  have := p.length_stable_le c (p.start k)
  omega

theorem Resident.set_printed (h : p.Resident memory) {r : Register}
    (hc : p.commands[k]? = some (.printRegister r)) (x : Int) :
    p.Resident (memory.set (p.start k + 3) x) := by
  have hle : p.start k + 4 ≤ p.size := start_add_size_le hc
  apply h.set x (by omega)
  intro k' c' hc'
  -- The command itself keeps the three cells before that one, and the others lie elsewhere.
  by_cases hk : k = k'
  · subst hk
    obtain rfl : c' = .printRegister r := Option.some.inj (hc'.symm.trans hc)
    exact .inr (Nat.le_refl _)
  · have := p.length_stable_le c' (p.start k')
    have : p.start k + 4 ≤ p.start k' ∨ p.start k' + c'.size ≤ p.start k :=
      start_apart hc hc' hk
    omega

/-- The machine is in the state of a configuration. -/
structure Agrees (p : Script) (s : Config) (m : Machine) : Prop where
  r0 : m.r0 = s.r0
  r1 : m.r1 = s.r1
  text : m.text = s.text
  halted : m.halted = s.halted
  ip : s.halted = false → m.ip = p.start s.next
  length_data : s.data.length = p.data.length
  data : ∀ j < p.data.length, m.memory[memorySize - 1 - j]? = s.data[j]?

/-- The machine agrees with a configuration, and the commands stand in its memory. -/
structure Tracks (p : Script) (style : BellStyle) (s : Config) (m : Machine) : Prop
    extends Agrees p s m where
  resident : p.Resident m.memory
  bellStyle : m.bellStyle = style

namespace Tracks

variable {style : BellStyle} {s : Config} {m : Machine}

theorem get (h : p.Tracks style s m) (r : Register) : m.get r = s.get r := by
  cases r with
  | r0 => exact h.r0
  | r1 => exact h.r1

theorem goto (h : p.Tracks style s m) (k : Nat) (n : Int) :
    p.Tracks style { s with next := k } { m with ip := p.start k, steps := n } :=
  { h with ip := fun _ => rfl }

theorem next (h : p.Tracks style s m) (hc : p.commands[s.next]? = some c) (n : Int) :
    p.Tracks style { s with next := s.next + 1 }
      { m with ip := p.start s.next + c.size, steps := n } := by
  have := h.goto (s.next + 1) n
  rwa [start_succ hc, Int.natCast_add] at this

theorem set (h : p.Tracks style s m) (r : Register) {v w : Int} (hv : v = w) :
    p.Tracks style (s.set r w) (m.set r v) := by
  subst hv
  cases r with
  | r0 => exact { h with r0 := rfl }
  | r1 => exact { h with r1 := rfl }

theorem write (h : p.Tracks style s m) (signal : Signal) {text : String}
    (ht : signal.text style = text) : p.Tracks style (s.write text) (m.emit signal) :=
  { h with
    text := by
      rw [Machine.text_emit, h.text, h.bellStyle, ht]
      rfl }

theorem halt (h : p.Tracks style s m) (i n : Int) :
    p.Tracks style s.halt ({ m with ip := i, steps := n, halted := true }.emit .newline) :=
  { h with
    text := (h.write .newline rfl).text
    halted := rfl
    ip := nofun }

theorem set_datum (hp : p.Placed) (h : p.Tracks style s m) {j : Nat} (hj : j < p.data.length)
    {v w : Int} (hv : v = w) :
    p.Tracks style { s with data := s.data.set j w }
      { m with memory := m.memory.set (memorySize - 1 - j) v } :=
  { h with
    length_data := by rw [List.length_set, h.length_data]
    data := by
      intro j' hj'
      have hfits := hp.fits
      by_cases he : j = j'
      · subst he
        rw [hv, List.getElem?_set_self, List.getElem?_set_self]
        · exact h.length_data ▸ hj
        · rw [h.resident.length_memory]
          omega
      · rw [List.getElem?_set_ne (by omega), List.getElem?_set_ne he, h.data j' hj']
    resident := h.resident.set_datum hp hj v }

theorem set_printed (hp : p.Placed) (h : p.Tracks style s m) {r : Register}
    (hc : p.commands[k]? = some (.printRegister r)) (v : Int) :
    p.Tracks style s { m with memory := m.memory.set (p.start k + 3) v } :=
  { h with
    data := by
      intro j hj
      have hfits := hp.fits
      have hle : p.start k + 4 ≤ p.size := start_add_size_le hc
      rw [List.getElem?_set_ne (by omega), h.data j hj]
    resident := h.resident.set_printed hc v }

end Tracks

/-! ## Commands -/

theorem printed?_eq (hp : p.Placed) (hc : p.commands[k]? = some c) {x : Argument}
    (hx : .inr x ∈ c.terms) : p.printed? x = some (x.value p.value) := by
  cases x with
  | number n => rfl
  | symbol name =>
    obtain ⟨r, hr⟩ := hp.bound k c name hc hx
    rw [printed?, Argument.value, value, hr]
    rfl

theorem datum?_eq (hp : p.Placed) {x : Argument} (hx : p.IsDatum x) :
    ∃ j < p.data.length, p.datum? x = some j ∧ x.value p.value = (memorySize - 1 - j : Nat) := by
  obtain ⟨name, j, rfl, hj⟩ := hx
  have hlt := hp.datum_lt name j hj
  have hfits := hp.fits
  refine ⟨j, hlt, by rw [datum?, hj], ?_⟩
  rw [Argument.value, value, hj]
  simp only [Option.map_some, Option.getD_some, address]
  omega

theorem target?_eq {x : Argument} (hx : p.IsLabel x) :
    ∃ k, p.target? x = some k ∧ x.value p.value = p.start k := by
  obtain ⟨name, k, rfl, hk⟩ := hx
  refine ⟨k, by rw [target?, hk], ?_⟩
  rw [Argument.value, value, hk]
  rfl

variable {style : BellStyle} {s : Config} {m : Machine}

/-- A command does the same to the machine as to the configuration. -/
theorem Tracks.execute (hp : p.Placed) (h : p.Tracks style s m)
    (hc : p.commands[s.next]? = some c) :
    ∃ s', s.execute p style c = some s' ∧
      p.Tracks style s' ((p.resolved c).effect (p.start s.next) m) := by
  have hnext := h.next hc (m.steps + c.stepCount)
  cases c with
  | halt => exact ⟨_, rfl, h.halt _ _⟩
  | add => exact ⟨_, rfl, hnext.set .r0 (by rw [h.r0, h.r1])⟩
  | sub => exact ⟨_, rfl, hnext.set .r0 (by rw [h.r0, h.r1])⟩
  | inc r => exact ⟨_, rfl, hnext.set r (by rw [h.get])⟩
  | dec r => exact ⟨_, rfl, hnext.set r (by rw [h.get])⟩
  | bell => exact ⟨_, rfl, hnext.write .bell rfl⟩
  | print x =>
    have hx : p.printed? x = some (x.value p.value) := printed?_eq hp hc (.head _)
    refine ⟨_, ?_, hnext.write (.number (x.value p.value)) rfl⟩
    rw [Config.execute, hx]
    rfl
  | printRegister r =>
    have hprinted := (hnext.set_printed hp hc (m.get r)).write (.number (m.get r)) rfl
    refine ⟨_, ?_, hprinted⟩
    rw [Config.execute, h.get r]
    rfl
  | load x r =>
    obtain ⟨j, hj, hd, hv⟩ := datum?_eq hp (hp.linked _ (List.mem_of_getElem? hc))
    obtain ⟨n, hn⟩ : ∃ n, s.data[j]? = some n :=
      ⟨_, List.getElem?_eq_getElem (h.length_data.symm ▸ hj)⟩
    have hload : m.memory.getD (x.value p.value).toNat 0 = n := by
      rw [hv, Int.toNat_natCast, List.getD_eq_getElem?_getD, h.data j hj, hn]
      rfl
    refine ⟨_, ?_, hnext.set r hload⟩
    rw [Config.execute, hd]
    change (s.data[j]? >>= _) = _
    rw [hn]
    rfl
  | store r x =>
    obtain ⟨j, hj, hd, hv⟩ := datum?_eq hp (hp.linked _ (List.mem_of_getElem? hc))
    have hstore := hnext.set_datum hp hj (h.get r)
    refine ⟨_, by rw [Config.execute, hd]; rfl, ?_⟩
    simp only [resolved, Command.map, Command.effect, hv, Int.toNat_natCast]
    exact hstore
  | jump condition x =>
    obtain ⟨k, hk, hv⟩ := target?_eq (hp.linked _ (List.mem_of_getElem? hc))
    have hgoto := h.goto k (m.steps + 1)
    refine ⟨_, by rw [Config.execute, hk]; rfl, ?_⟩
    have hholds : condition.Holds m.r0 ↔ condition.Holds s.r0 := by rw [h.r0]
    simp only [resolved, Command.map, Command.effect, hv, hholds]
    split
    · exact hgoto
    · exact hnext

theorem inMemory_resolved (hp : p.Placed) (hc : p.commands[k]? = some c) :
    (p.resolved c).InMemory := by
  have hnibble : ∀ x, p.IsDatum x → IsNibble (x.value p.value) := by
    intro x hx
    obtain ⟨j, hj, -, hv⟩ := datum?_eq hp hx
    rw [hv, isNibble_natCast_iff]
    unfold memorySize
    omega
  cases c with
  | load x r => exact hnibble x (hp.linked _ (List.mem_of_getElem? hc))
  | store r x => exact hnibble x (hp.linked _ (List.mem_of_getElem? hc))
  | _ => trivial

/-- The machine halts after the last command, at the end of the memory or at the zero before it. -/
theorem Tracks.step_after_last (h : p.Tracks style s m) (hs : s.halted = false)
    (hc : p.commands[s.next]? = none) :
    ∃ m', m.step = .ok m' ∧ p.Tracks style s.halt m' := by
  have hip : m.ip = p.size := by rw [h.ip hs, start_eq_size hc]
  by_cases hlt : p.size < memorySize
  · have hop : m.memory[p.size]? = some (Opcode.halt.code : Int) := h.resident.gap hlt
    refine ⟨_, ?_, h.halt (p.size + 1) (m.steps + 1)⟩
    rw [Machine.step_of_plain h.resident.length_memory hip hop rfl]
    rfl
  · refine ⟨_, ?_, h.halt m.ip (m.steps + 1)⟩
    have hnlt : ¬ m.ip < memorySize := by
      rw [hip]
      exact fun h => hlt (Int.ofNat_lt.mp h)
    rw [Machine.step, if_neg hnlt]
    rfl

/-- One step of the interpreter takes its duration on the machine. -/
theorem Tracks.step (hp : p.Placed) (h : p.Tracks style s m) :
    ∃ s' m', s.step p style = some s' ∧ m.stepTimes (s.duration p) = .ok m' ∧
      p.Tracks style s' m' := by
  unfold Config.step Config.duration
  cases hs : s.halted with
  | true => exact ⟨s, m, rfl, rfl, h⟩
  | false =>
    cases hc : p.commands[s.next]? with
    | none =>
      obtain ⟨m', hm, h'⟩ := h.step_after_last hs hc
      exact ⟨_, m', rfl, (m.stepTimes_one).trans hm, h'⟩
    | some c =>
      obtain ⟨s', he, h'⟩ := h.execute hp hc
      refine ⟨s', _, he, ?_, h'⟩
      have hfit : p.start s.next + (p.resolved c).size ≤ memorySize := by
        rw [resolved, Command.size_map]
        have hle := start_add_size_le hc
        have hfits := hp.fits
        omega
      have hstep := Machine.stepTimes_command h.resident.length_memory (h.ip hs) hfit
        (h.resident.code _ c hc) (inMemory_resolved hp hc)
      rwa [resolved, Command.stepCount_map] at hstep

/-- A run of the interpreter takes the durations of its steps on the machine. -/
theorem Tracks.stepTimes (hp : p.Placed) (h : p.Tracks style s m) (n : Nat) :
    ∃ s' m', s.stepTimes p style n = some s' ∧ m.stepTimes (s.elapsed p style n) = .ok m' ∧
      p.Tracks style s' m' := by
  induction n generalizing s m with
  | zero => exact ⟨s, m, rfl, rfl, h⟩
  | succ n ih =>
    obtain ⟨s₁, m₁, hs₁, hm₁, h₁⟩ := h.step hp
    obtain ⟨s', m', hs', hm', h'⟩ := ih h₁
    refine ⟨s', m', ?_, ?_, h'⟩
    · rw [Config.stepTimes, hs₁]
      exact hs'
    · rw [Config.elapsed, hs₁, Machine.stepTimes_add hm₁]
      exact hm'

end Script

end Nibble
